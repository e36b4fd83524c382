import TensorProgram.Proofs.Concatenations
import TensorProgram.Proofs.Guards
import TensorProgram.Proofs.Validity

/-!
# Invalid shapes are rejected

Every shape that an operation takes is looked at: its operands, the shapes that it is asked for,
and the inputs and outputs of its computation.  `Inference.Demands` says that a check ends in a
verdict unless a condition holds, and a chain of checks is followed with `Demands.first` and
`Demands.after` up to the check that looks at the shape.  A rule that never stops needs no such
path: it is enough that the shapes are valid whenever it succeeds, `Demands.of_ensures`.

Only a concatenation adds up extents before it has looked at all of its inputs.  It stops for an
overflow when the first ones have more layers than a size can count, whatever comes after them:
`Inference.concatenate_overflows_iff`.
-/

namespace TensorProgram

namespace Inference

open ShapeError (Cause)

/-- Without the property the check ends in a verdict, which is no fault. -/
def Demands {α : Type} (P : Prop) (x : Check α) : Prop :=
  ¬P → ∃ cause, x = .error cause ∧ ∀ fault, cause ≠ .fault fault

/-! ## Chains of checks -/

section Demands

variable {α β : Type} {P Q : Prop} {x : Check α} {next : α → Check β}

theorem demands_of_true (h : P) : Demands P x := fun hP => absurd h hP

theorem demands_error {cause : Cause} (h : ∀ fault, cause ≠ .fault fault) :
    Demands P (.error cause : Check α) :=
  fun _ => ⟨cause, rfl, h⟩

/-- A check that never stops demands what it ensures. -/
theorem Demands.of_ensures (hensures : Ensures (fun _ => P) x)
    (hstops : StopsOnlyFor (fun _ => False) x) : Demands P x := by
  intro hP
  cases hx : x with
  | ok a => exact absurd (hensures a hx) hP
  | error cause => exact ⟨cause, rfl, fun fault h => hstops fault (by rw [hx, h])⟩

/-- A check that has succeeded got what it demands. -/
theorem Demands.holds (hx : Demands P x) {a : α} (h : x = .ok a) : P := by
  by_contra hP
  obtain ⟨cause, hcause, _⟩ := hx hP
  rw [h] at hcause
  cases hcause

theorem Demands.mono (hx : Demands P x) (h : P → Q) : Demands Q x :=
  fun hQ => hx fun hP => hQ (h hP)

theorem Demands.and (hP : Demands P x) (hQ : Demands Q x) : Demands (P ∧ Q) x := by
  intro h
  by_cases hcase : P
  · exact hQ fun hq => h ⟨hcase, hq⟩
  · exact hP hcase

/-- What the first check demands is demanded. -/
theorem Demands.first (hx : Demands P x) : Demands P (x >>= next) := by
  intro hP
  obtain ⟨cause, rfl, hcause⟩ := hx hP
  exact ⟨cause, rfl, hcause⟩

/-- What the second check demands is demanded when the first one never stops. -/
theorem Demands.after (hx : StopsOnlyFor (fun _ => False) x)
    (h : ∀ a, x = .ok a → Demands P (next a)) : Demands P (x >>= next) := by
  intro hP
  cases hcase : x with
  | error cause =>
    exact ⟨cause, rfl, fun fault hfault => hx fault (by rw [hcase, hfault])⟩
  | ok a => exact h a hcase hP

end Demands

/-! ## Checks that look at shapes -/

section Looking

variable {α : Type} {x : Check α} {s lhs rhs : Shape} {shapes others : List Shape}

@[simp] theorem allValid_nil : AllValid [] := fun _ h => nomatch h

@[simp] theorem allValid_cons : AllValid (s :: shapes) ↔ s.isValid = true ∧ AllValid shapes :=
  List.forall_mem_cons

@[simp] theorem allValid_append :
    AllValid (shapes ++ others) ↔ AllValid shapes ∧ AllValid others :=
  List.forall_mem_append

/-- The shapes of a list are demanded one after the other. -/
theorem Demands.cons (hs : Demands (s.isValid = true) x) (h : Demands (AllValid shapes) x) :
    Demands (AllValid (s :: shapes)) x :=
  (hs.and h).mono allValid_cons.mpr

theorem Demands.single (hs : Demands (s.isValid = true) x) : Demands (AllValid [s]) x :=
  hs.cons (demands_of_true allValid_nil)

theorem Demands.append (h : Demands (AllValid shapes) x) (hothers : Demands (AllValid others) x) :
    Demands (AllValid (shapes ++ others)) x :=
  (h.and hothers).mono allValid_append.mpr

/-- The shapes of two lists of the same length are valid when those of each pair are. -/
theorem allValid_of_zip (hlength : others.length = shapes.length)
    (h : ∀ pair ∈ shapes.zip others, pair.1.isValid = true ∧ pair.2.isValid = true) :
    AllValid shapes ∧ AllValid others := by
  constructor
  · rw [← List.map_fst_zip (Nat.le_of_eq hlength.symm)]
    exact List.forall_mem_map.mpr fun pair hpair => (h pair hpair).1
  · rw [← List.map_snd_zip (Nat.le_of_eq hlength)]
    exact List.forall_mem_map.mpr fun pair hpair => (h pair hpair).2

theorem demands_elementType : Demands (s.isValid = true) (elementType s) :=
  .of_ensures (fun _ => isValid_of_elementType) stops_elementType

theorem demands_operand : Demands (AllValid [s]) (elementType s) :=
  demands_elementType.single

theorem demands_indexElementType : Demands (s.isValid = true) (indexElementType s) :=
  demands_elementType.first

theorem demands_commonElementType : Demands (AllValid [lhs, rhs]) (commonElementType lhs rhs) := by
  refine .of_ensures (fun _ h => ?_) stops_commonElementType
  simpa using isValid_of_commonElementType h

theorem demands_operandElementTypes : Demands (AllValid shapes) (operandElementTypes shapes) :=
  .of_ensures (fun _ => allValid_of_operandElementTypes) stops_operandElementTypes

theorem isValid_of_requireScalarLike {suits : ElementType → ElementType → Bool} {t : ElementType}
    {position : Nat} {u : Unit} (h : requireScalarLike suits t position s = .ok u) :
    s.isValid = true := by
  obtain ⟨_, ht, _⟩ := bind_eq_ok.mp h
  exact isValid_of_elementType ht

/-- The scalars of every pair have been looked at, and there are no others. -/
theorem demands_requireCombinator {suits : ElementType → ElementType → Bool}
    {signature : Signature} {types : List ElementType} :
    Demands (AllValid (signature.inputs ++ signature.outputs))
      (requireCombinator suits signature types) := by
  refine .of_ensures (fun _ h => ?_) stops_requireCombinator
  obtain ⟨_, hcounts, hscalars⟩ := bind_eq_ok.mp h
  obtain ⟨hinputs, houtputs⟩ : signature.inputs.length = 2 * types.length ∧
      signature.outputs.length = types.length := by
    simpa using require_eq_ok.mp hcounts
  have hlooked (i : Nat) (hi : i < types.length) :
      (∃ s, signature.inputs[i]? = some s ∧ s.isValid = true) ∧
        (∃ s, signature.inputs[types.length + i]? = some s ∧ s.isValid = true) ∧
          ∃ s, signature.outputs[i]? = some s ∧ s.isValid = true := by
    have hmem : (types[i], i) ∈ types.zipIdx := List.mem_zipIdx_iff_getElem?.mpr (by simp)
    have hscalar := forM_eq_ok.mp hscalars _ hmem
    simp only [bind_eq_ok, entry_eq_ok] at hscalar
    obtain ⟨l, hl, _, hlvalid, r, hr, _, hrvalid, o, ho, hovalid⟩ := hscalar
    exact ⟨⟨l, hl, isValid_of_requireScalarLike hlvalid⟩,
      ⟨r, hr, isValid_of_requireScalarLike hrvalid⟩, ⟨o, ho, isValid_of_requireScalarLike hovalid⟩⟩
  rw [allValid_append]
  constructor
  · intro s hs
    obtain ⟨i, hi⟩ := List.getElem?_of_mem hs
    have hlt : i < signature.inputs.length := (List.getElem?_eq_some_iff.mp hi).1
    -- the input belongs to the left or to the right scalars
    rcases Nat.lt_or_ge i types.length with hleft | hright
    · obtain ⟨⟨l, hl, hvalid⟩, _⟩ := hlooked i hleft
      rw [hi] at hl
      rwa [Option.some.inj hl]
    · obtain ⟨_, ⟨r, hr, hvalid⟩, _⟩ := hlooked (i - types.length) (by omega)
      rw [Nat.add_sub_cancel' hright, hi] at hr
      rwa [Option.some.inj hr]
  · intro s hs
    obtain ⟨i, hi⟩ := List.getElem?_of_mem hs
    have hlt : i < signature.outputs.length := (List.getElem?_eq_some_iff.mp hi).1
    obtain ⟨_, _, o, ho, hvalid⟩ := hlooked i (by omega)
    rw [hi] at ho
    rwa [Option.some.inj ho]

/-- Every start index is looked at, also the first one. -/
theorem demands_requireStarts : Demands (AllValid shapes) (requireStarts s shapes) := by
  refine .of_ensures (fun _ h => ?_) stops_requireStarts
  obtain ⟨_, _, h⟩ := bind_eq_ok.mp h
  intro start hstart
  obtain ⟨_, _, hstart⟩ := bind_eq_ok.mp (forM_eq_ok.mp h start hstart)
  obtain ⟨_, hindex, _⟩ := bind_eq_ok.mp hstart
  exact demands_indexElementType.holds hindex

/-- Every input of a reduction is looked at together with its initial value. -/
theorem demands_reducedElementTypes :
    Demands (AllValid (shapes ++ others)) (reducedElementTypes shapes others) := by
  refine .of_ensures (fun types h => ?_) stops_reducedElementTypes
  cases shapes with
  | nil => cases h
  | cons first rest =>
    obtain ⟨_, hlength, htypes⟩ := bind_eq_ok.mp h
    have hlength : others.length = (first :: rest).length := by simpa using require_eq_ok.mp hlength
    refine allValid_append.mpr (allValid_of_zip hlength fun pair hpair => ?_)
    obtain ⟨t, ht⟩ := exists_ok_of_mem htypes hpair
    simp only [reducedElementType, scalarElementType, bind_eq_ok] at ht
    obtain ⟨_, hinput, _, _, _, ⟨_, hinitial, _⟩, _⟩ := ht
    exact ⟨isValid_of_elementType hinput, isValid_of_elementType hinitial⟩

end Looking

/-! ## Rules -/

section Rules

variable {operand lhs rhs : Shape} {op : OpKind}

theorem unary_demands : Demands (AllValid [operand]) (unary op operand) := by
  unfold unary
  split
  · exact demands_operand.first
  · exact demands_error nofun

theorem binary_demands : Demands (AllValid [lhs, rhs]) (binary op lhs rhs) := by
  unfold binary
  split
  · exact demands_commonElementType.first
  · exact demands_error nofun

theorem select_demands {predicate onTrue onFalse : Shape} :
    Demands (AllValid [predicate, onTrue, onFalse]) (select predicate onTrue onFalse) := by
  refine .cons demands_elementType.first ?_
  refine .after stops_elementType fun _ _ => .after stops_requireClass fun _ _ => ?_
  exact demands_commonElementType.first

theorem clamp_demands {min max : Shape} :
    Demands (AllValid [min, operand, max]) (clamp min operand max) := by
  have hmin : Demands (AllValid [min, operand]) (clamp min operand max) := by
    refine .after stops_elementType fun _ _ => .after stops_requireCapabilities fun _ _ => ?_
    exact .after stops_requireClass fun _ _ => demands_commonElementType.first.first
  have hmax : Demands (AllValid [max, operand]) (clamp min operand max) := by
    refine .after stops_elementType fun _ _ => .after stops_requireCapabilities fun _ _ => ?_
    refine .after stops_requireClass fun _ _ => .after stops_requireBound fun _ _ => ?_
    exact demands_commonElementType.first.first
  refine (hmin.and hmax).mono fun h => ?_
  simp only [allValid_cons] at h ⊢
  exact ⟨h.1.1, h.1.2.1, h.2.1, allValid_nil⟩

theorem pad_demands {paddingValue : Shape} {low high interior : List Int} :
    Demands (AllValid [operand, paddingValue]) (pad operand paddingValue low high interior) := by
  refine .after stops_elementType fun _ _ => .after stops_scalarElementType fun _ _ => ?_
  exact demands_commonElementType.first

theorem gather_demands {indices : Shape} {d : GatherDimensions} {sliceSizes : List Nat} :
    Demands (AllValid [operand, indices]) (gather operand indices d sliceSizes) := by
  refine .cons demands_elementType.first ?_
  exact .after stops_elementType fun _ _ => demands_indexElementType.first.single

theorem scatter_demands {inputs updates : List Shape} {indices : Shape} {d : ScatterDimensions}
    {computation : Signature} :
    Demands (AllValid (inputs ++ indices :: updates ++ (computation.inputs ++ computation.outputs)))
      (scatter inputs indices updates d computation) := by
  refine .of_ensures (fun _ h => ?_) scatter_stops
  cases inputs with
  | nil => cases h
  | cons input rest =>
    simp only [scatter, bind_eq_ok, require_eq_ok, beq_iff_eq] at h
    obtain ⟨_, hlength, _, _, types, htypes, _, hindices, _, _, _, _, _, _, _, _, _, _, _, _, _,
      hcombinator, _⟩ := h
    have hpairs := allValid_of_zip hlength fun pair hpair => by
      obtain ⟨t, ht⟩ := exists_ok_of_mem htypes hpair
      obtain ⟨_, hcommon, _⟩ := bind_eq_ok.mp ht
      exact isValid_of_commonElementType hcommon
    rw [allValid_append, allValid_append]
    exact ⟨⟨hpairs.1, allValid_cons.mpr ⟨demands_indexElementType.holds hindices, hpairs.2⟩⟩,
      demands_requireCombinator.holds hcombinator⟩

theorem dynamicSlice_demands {starts : List Shape} {sliceSizes : List Nat} :
    Demands (AllValid (operand :: starts)) (dynamicSlice operand starts sliceSizes) := by
  refine .cons demands_elementType.first ?_
  exact .after stops_elementType fun _ _ => demands_requireStarts.first

theorem dynamicUpdateSlice_demands {update : Shape} {starts : List Shape} :
    Demands (AllValid (operand :: update :: starts))
      (dynamicUpdateSlice operand update starts) := by
  have hstarts : Demands (AllValid starts) (dynamicUpdateSlice operand update starts) := by
    refine .after stops_commonElementType fun _ _ => .after (stops_require nofun) fun _ _ => ?_
    exact demands_requireStarts.first
  have hoperands :
      Demands (AllValid [operand, update]) (dynamicUpdateSlice operand update starts) :=
    demands_commonElementType.first
  exact hoperands.append hstarts

section Reductions

variable {inputs initials : List Shape} {body : Signature}

theorem reduce_demands {axes : List Int} :
    Demands (AllValid (inputs ++ initials ++ (body.inputs ++ body.outputs)))
      (reduce inputs initials axes body) := by
  refine .append demands_reducedElementTypes.first ?_
  refine .after stops_reducedElementTypes fun _ htypes => ?_
  refine .after (stops_entry (length_pos_of_reducedElementTypes htypes)) fun _ _ => ?_
  exact .after stops_normalizeAxes fun _ _ => demands_requireCombinator.first

theorem argMinMax_isValid (operand : Shape) (axis : Int) (positionType : ElementType) :
    Ensures (·.isValid = true) (argMinMax operand axis positionType) := by
  refine .skip fun _ => .skip fun _ => .skip fun _ => .skip fun _ => .skip fun _ => ?_
  exact .skip fun _ => ensures_pure rfl

theorem reduceWindow_demands {window : Window} :
    Demands (AllValid (inputs ++ initials ++ (body.inputs ++ body.outputs)))
      (reduceWindow inputs initials window body) := by
  refine .append demands_reducedElementTypes.first ?_
  refine .after stops_reducedElementTypes fun _ htypes => ?_
  refine .after (stops_entry (length_pos_of_reducedElementTypes htypes)) fun _ _ => ?_
  refine .after stops_requireLength fun _ _ => .after stops_requireLength fun _ _ => ?_
  refine .after stops_requireLength fun _ _ => .after stops_requireLength fun _ _ => ?_
  exact .after stops_requireLength fun _ _ => demands_requireCombinator.first

end Reductions

section Collectives

variable {operands : List Shape} {groups : List (List Int)}

theorem allReduce_demands {computation : Signature} :
    Demands (AllValid (operands ++ (computation.inputs ++ computation.outputs)))
      (allReduce operands groups computation) := by
  refine .append demands_operandElementTypes.first ?_
  refine .after stops_operandElementTypes fun _ _ => .after stops_replicaGroupSize fun _ _ => ?_
  exact demands_requireCombinator.first

end Collectives

section Generation

theorem rngBitGenerator_demands {initialState s : Shape} :
    Demands (AllValid [initialState, s]) (rngBitGenerator initialState s) := by
  refine .cons demands_elementType.first ?_
  refine .after stops_elementType fun _ _ => .after stops_requireClass fun _ _ => ?_
  exact .after (stops_require nofun) fun _ _ => demands_operand.first

theorem customCall_demands {inputs outputs : List Shape} :
    Demands (AllValid (inputs ++ outputs)) (customCall inputs outputs) := by
  refine .of_ensures (fun _ h s hs => ?_) customCall_stops
  obtain ⟨_, h, _⟩ := bind_eq_ok.mp h
  obtain ⟨_, ht, _⟩ := bind_eq_ok.mp (forM_eq_ok.mp h s hs)
  exact isValid_of_elementType ht

end Generation

/-! ## Concatenations -/

section Concatenation

variable {first input s : Shape} {inputs rest : List Shape} {axis : Int} {a total : Nat}

theorem addInput_demands : Demands (AllValid [first, input]) (addInput first a total input) :=
  demands_commonElementType.first

theorem allValid_of_foldlM_addInput {extent : Nat}
    (h : inputs.foldlM (addInput first a) total = .ok extent) : AllValid inputs := by
  induction inputs generalizing total with
  | nil => exact allValid_nil
  | cons input inputs ih =>
    obtain ⟨_, hinput, hrest⟩ := bind_eq_ok.mp h
    exact allValid_cons.mpr ⟨addInput_demands.holds hinput input (by simp), ih hrest⟩

theorem concatenate_takes_valid : Ensures (fun _ => AllValid inputs) (concatenate inputs axis) := by
  intro _ h
  cases inputs with
  | nil => exact allValid_nil
  | cons first rest =>
    simp only [concatenate, bind_eq_ok] at h
    obtain ⟨_, ht, _, _, _, _, _, _, _, htotal, _⟩ := h
    exact allValid_cons.mpr ⟨isValid_of_elementType ht, allValid_of_foldlM_addInput htotal⟩

/-- The extents are added when the layers have been found to be the same. -/
theorem addInput_stops_same :
    StopsOnlyFor (fun _ => input.layer a = first.layer a) (addInput first a total input) := by
  refine .bind stops_commonElementType fun t ht => .bind (stops_require nofun) fun _ hagree => ?_
  obtain ⟨hfirst, hinput⟩ := commonElementType_eq_ok.mp ht
  have hset := agreeExcept_iff.mp (require_eq_ok.mp hagree)
  intro fault _
  rw [Shape.layer, Shape.layer, ← Shape.of_set hinput, ← Shape.of_set hfirst, hset]

section Inputs

variable (hvalid : first.isValid = true) (ha : a < first.rank)

include hvalid ha

/-- Nothing but the sum can fail for an input with the layers of the first one. -/
theorem addInput_of_layer (hlayer : input.layer a = first.layer a) :
    addInput first a total input = Size.add total (input.extentAt a) := by
  obtain ⟨t, ht⟩ := Option.isSome_iff_exists.mp hvalid
  have hinput := (Shape.elementType?_of_layer hlayer).trans ht
  have hagree := agreeExcept_iff.mpr (congrArg Shape.dimensions hlayer)
  have hextent := Shape.getElem?_eq_extentAt (Shape.rank_of_layer hlayer ▸ ha)
  rw [addInput, commonElementType_eq_ok.mpr ⟨ht, hinput⟩, ok_bind, require, if_pos hagree, ok_bind,
    entry_eq_ok.mpr hextent, ok_bind]

theorem addInput_overflows_iff :
    addInput first a total input = .error (.fault (.overflow .add)) ↔
      input.layer a = first.layer a ∧ Size.limit ≤ total + input.extentAt a := by
  constructor
  · intro h
    have hlayer : input.layer a = first.layer a := addInput_stops_same _ h
    rw [addInput_of_layer hvalid ha hlayer, Size.add_overflows_iff] at h
    exact ⟨hlayer, h⟩
  · rintro ⟨hlayer, hlimit⟩
    rw [addInput_of_layer hvalid ha hlayer, Size.add_overflows_iff]
    exact hlimit

/-- The sum overflows at the first input that brings it to the limit, when all inputs up to there
have the layers of the first one.  Nobody looks at the others. -/
theorem foldlM_addInput_overflows_iff :
    rest.foldlM (addInput first a) total = .error (.fault (.overflow .add)) ↔
      ∃ added after, rest = added ++ after ∧ added ≠ [] ∧
        (∀ input ∈ added, input.layer a = first.layer a) ∧
        Size.limit ≤ total + totalExtent a added := by
  induction rest generalizing total with
  | nil =>
    constructor
    · nofun
    · rintro ⟨added, after, happend, hne, _⟩
      exact absurd (List.append_eq_nil_iff.mp happend.symm).1 hne
  | cons input rest ih =>
    rw [List.foldlM_cons]
    constructor
    · intro h
      cases hadd : addInput first a total input with
      | error cause =>
        rw [hadd, error_bind] at h
        rw [Except.error.inj h, addInput_overflows_iff hvalid ha] at hadd
        refine ⟨[input], rest, rfl, List.cons_ne_nil _ _, ?_, ?_⟩
        · exact List.forall_mem_singleton.mpr hadd.1
        · simpa using hadd.2
      | ok n =>
        rw [hadd, ok_bind] at h
        obtain ⟨hlayer, rfl, _⟩ := (addInput_eq_ok hvalid ha).mp hadd
        obtain ⟨added, after, rfl, _, hlayers, hlimit⟩ := ih.mp h
        refine ⟨input :: added, after, rfl, List.cons_ne_nil _ _, ?_, ?_⟩
        · exact List.forall_mem_cons.mpr ⟨hlayer, hlayers⟩
        · rw [totalExtent_cons]
          omega
    · rintro ⟨added, after, happend, hne, hlayers, hlimit⟩
      obtain ⟨added, rfl⟩ : ∃ tail, added = input :: tail := by
        obtain ⟨head, tail, rfl⟩ := List.exists_cons_of_ne_nil hne
        exact ⟨tail, by rw [(List.cons.inj happend).1]⟩
      obtain rfl : rest = added ++ after := (List.cons.inj happend).2
      rw [List.forall_mem_cons] at hlayers
      rw [totalExtent_cons] at hlimit
      rw [addInput_of_layer hvalid ha hlayers.1]
      rcases Nat.lt_or_ge (total + input.extentAt a) Size.limit with hlt | hge
      · have hne : added ≠ [] := by
          rintro rfl
          rw [totalExtent_nil] at hlimit
          omega
        rw [Size.add, Size.bounded_eq_ok.mpr ⟨hlt, rfl⟩, ok_bind]
        exact ih.mpr ⟨added, after, rfl, hne, hlayers.2, by omega⟩
      · rw [Size.add_overflows_iff.mpr hge, error_bind]

end Inputs

/-- The first inputs have layers of one kind, and more of them than a size can count.  There are
several such inputs, because the extent of a single one is a size. -/
def Overlong (inputs : List Shape) (axis : Int) : Prop :=
  ∃ first added after, ∃ a : Nat, inputs = first :: (added ++ after) ∧ added ≠ [] ∧
    first.isValid = true ∧ fromFront axis first.rank = a ∧ a < first.rank ∧
    (∀ input ∈ added, input.layer a = first.layer a) ∧
    Size.limit ≤ totalExtent a (first :: added)

/-- A concatenation stops for an overflow exactly when its first inputs are too long, and then the
inputs after them do not matter. -/
theorem concatenate_overflows_iff :
    concatenate inputs axis = .error (.fault (.overflow .add)) ↔ Overlong inputs axis := by
  constructor
  · intro h
    cases inputs with
    | nil => cases h
    | cons first rest =>
      have hstops :
          StopsOnlyFor (fun fault => fault = .overflow .add → Overlong (first :: rest) axis)
            (concatenate (first :: rest) axis) := by
        refine .bind stops_elementType fun t ht => .bind (stops_require nofun) fun _ _ => ?_
        refine .bind stops_normalizeAxis fun a ha => ?_
        have hvalid := isValid_of_elementType ht
        obtain ⟨haxis, hlt⟩ := normalizeAxis_eq_ok.mp ha
        refine .bind (stops_entry hlt) fun extent hextent => .bind ?_ fun _ _ => ?_
        · rintro fault hfault rfl
          obtain ⟨added, after, rfl, hne, hlayers, hlimit⟩ :=
            (foldlM_addInput_overflows_iff hvalid hlt).mp hfault
          refine ⟨first, added, after, a, rfl, hne, hvalid, haxis, hlt, hlayers, ?_⟩
          rwa [totalExtent_cons, Shape.extentAt_eq (entry_eq_ok.mp hextent)]
        · exact .bind (stops_replaceEntry hlt) fun _ _ => stops_pure _
      exact hstops _ h rfl
  · rintro ⟨first, added, after, a, rfl, hne, hvalid, haxis, hlt, hlayers, hlimit⟩
    obtain ⟨t, ht⟩ := Option.isSome_iff_exists.mp hvalid
    have hrank : (first.rank != 0) = true := by simpa using Nat.ne_zero_of_lt hlt
    have hsum : (added ++ after).foldlM (addInput first a) (first.extentAt a) =
        .error (.fault (.overflow .add)) :=
      (foldlM_addInput_overflows_iff hvalid hlt).mpr ⟨added, after, rfl, hne, hlayers, hlimit⟩
    rw [concatenate, elementType_eq_ok.mpr ht, ok_bind, require, if_pos hrank, ok_bind,
      normalizeAxis_eq_ok.mpr ⟨haxis, hlt⟩, ok_bind,
      entry_eq_ok.mpr (Shape.getElem?_eq_extentAt hlt), ok_bind, hsum, error_bind]

end Concatenation

end Rules

end Inference

namespace Operation

open Inference

theorem demands_one {P : Prop} {x : Check Shape} (h : Demands P x) : Demands P (one x) := by
  intro hP
  obtain ⟨cause, rfl, hcause⟩ := h hP
  exact ⟨cause, rfl, hcause⟩

/-- Every operation but a concatenation demands that the shapes it takes are valid.  Nobody looks
at the shape that a constant brings along. -/
theorem outputs_demands {o : Operation Shape Signature}
    (hne : ∀ inputs axis, o ≠ .concatenate inputs axis)
    (ho : ∀ literal, o = .constant literal → literal.shape.isValid = true) :
    Demands (AllValid o.shapes) o.outputs := by
  cases o with
  | unary op operand => exact demands_one unary_demands
  | binary op lhs rhs => exact demands_one binary_demands
  | compare lhs rhs direction type? => exact demands_one demands_commonElementType.first
  | select predicate onTrue onFalse => exact demands_one select_demands
  | clamp min operand max => exact demands_one clamp_demands
  | convert operand target => exact demands_one demands_operand.first
  | bitcastConvert operand target => exact demands_one demands_operand.first
  | reducePrecision operand exponentBits mantissaBits => exact demands_one demands_operand.first
  | broadcastInDim operand dimensions axes => exact demands_one demands_operand.first
  | reshape operand dimensions => exact demands_one demands_operand.first
  | transpose operand permutation => exact demands_one demands_operand.first
  | slice operand starts limits strides => exact demands_one demands_operand.first
  | concatenate inputs axis => exact absurd rfl (hne inputs axis)
  | pad operand paddingValue low high interior => exact demands_one pad_demands
  | gather operand indices d sliceSizes => exact demands_one gather_demands
  | scatter inputs indices updates d computation =>
    refine scatter_demands.mono fun h => ?_
    simpa [shapes, Operation.operands, requestedShapes, computation?] using h
  | dynamicSlice operand starts sliceSizes =>
    refine (demands_one dynamicSlice_demands).mono fun h => ?_
    simpa [shapes, Operation.operands, requestedShapes, computation?] using h
  | dynamicUpdateSlice operand update starts =>
    refine (demands_one dynamicUpdateSlice_demands).mono fun h => ?_
    simpa [shapes, Operation.operands, requestedShapes, computation?] using h
  | reduce inputs initials axes body =>
    refine reduce_demands.mono fun h => ?_
    simpa [shapes, Operation.operands, requestedShapes, computation?] using h
  | reduceWindow inputs initials window body =>
    refine reduceWindow_demands.mono fun h => ?_
    simpa [shapes, Operation.operands, requestedShapes, computation?] using h
  | fft operand type lengths => exact demands_one demands_operand.first
  | dotGeneral lhs rhs d => exact demands_one demands_commonElementType.first
  | convolution lhs rhs c => exact demands_one demands_commonElementType.first
  | allGather operands axis groups =>
    refine demands_operandElementTypes.first.mono fun h => ?_
    simpa [shapes, Operation.operands, requestedShapes, computation?] using h
  | allToAll operands splitAxis concatAxis count groups =>
    refine demands_operandElementTypes.first.mono fun h => ?_
    simpa [shapes, Operation.operands, requestedShapes, computation?] using h
  | allReduce operands groups computation =>
    refine allReduce_demands.mono fun h => ?_
    simpa [shapes, Operation.operands, requestedShapes, computation?] using h
  | collectivePermute operand pairs => exact demands_one demands_operand.first
  | collectiveBroadcast operand groups => exact demands_one demands_operand.first
  | constant literal => exact demands_of_true (allValid_cons.mpr ⟨ho literal rfl, allValid_nil⟩)
  | iota shape axis => exact demands_one demands_operand.first
  | rngBitGenerator initialState shape algorithm => exact rngBitGenerator_demands
  | customCall target inputs outputs hasSideEffect attributes =>
    refine customCall_demands.mono fun h => ?_
    simpa [shapes, Operation.operands, requestedShapes, computation?] using h

/-- The operation is a concatenation whose first inputs are too long. -/
def TooLong (o : Operation Shape Signature) : Prop :=
  ∃ inputs axis, o = .concatenate inputs axis ∧ Overlong inputs axis

theorem outputs_of_tooLong {o : Operation Shape Signature} (h : o.TooLong) :
    o.outputs = .error (.fault (.overflow .add)) := by
  obtain ⟨inputs, axis, rfl, hlong⟩ := h
  rw [outputs, one, concatenate_overflows_iff.mpr hlong]
  rfl

/-- An invalid shape is rejected wherever an operation takes one, unless a concatenation does not
come to look at it. -/
theorem outputs_of_invalid {o : Operation Shape Signature}
    (ho : ∀ literal, o = .constant literal → literal.shape.isValid = true) {s : Shape}
    (hs : s ∈ o.shapes) (hinvalid : s.isValid = false) (hshort : ¬o.TooLong) :
    ∃ cause, o.outputs = .error cause ∧ ∀ fault, cause ≠ .fault fault := by
  have hall : ¬AllValid o.shapes := fun h => by simp [h s hs] at hinvalid
  by_cases hconcatenate : ∃ inputs axis, o = .concatenate inputs axis
  · obtain ⟨inputs, axis, rfl⟩ := hconcatenate
    simp only [shapes, Operation.operands, requestedShapes, computation?, Option.elim_none,
      List.append_nil] at hall
    cases hresult : Inference.concatenate inputs axis with
    | ok output => exact absurd (concatenate_takes_valid output hresult) hall
    | error cause =>
      refine ⟨cause, by simp [outputs, one, hresult, Except.map], ?_⟩
      rintro fault rfl
      have hstops : StopsOnlyFor (.overflow .add = ·) (Inference.concatenate inputs axis) :=
        concatenate_stops rfl
      obtain rfl := hstops fault hresult
      exact hshort ⟨inputs, axis, rfl, concatenate_overflows_iff.mp hresult⟩
  · have hne (inputs : List Shape) (axis : Int) : o ≠ .concatenate inputs axis :=
      fun h => hconcatenate ⟨inputs, axis, h⟩
    exact outputs_demands hne ho hall

/-- Inference takes valid shapes only and gives valid shapes only, for every operation and for
the search for extreme elements.  Only a concatenation whose first inputs are too long comes to no
answer, before it looks at the shapes after them. -/
theorem infer_validity (o : Operation Shape Signature) (operand : Shape) (axis : Int)
    (positionType : ElementType) :
    ((∀ literal, o = .constant literal → literal.shape.isValid = true) →
      (∀ s ∈ o.shapes, s.isValid = false →
        (¬o.TooLong → ∃ cause, o.infer = .error ⟨o.kind, cause⟩ ∧ ∀ fault, cause ≠ .fault fault) ∧
        (o.TooLong → o.infer = .error ⟨o.kind, .fault (.overflow .add)⟩)) ∧
      ∀ outputs, o.infer = .ok outputs → AllValid outputs) ∧
    (operand.isValid = false → ∃ cause, argMinMax operand axis positionType = .error cause ∧
      ∀ fault, cause ≠ .fault fault) ∧
    ∀ s, argMinMax operand axis positionType = .ok s → s.isValid = true := by
  refine ⟨fun ho => ⟨fun s hs hinvalid => ⟨fun hshort => ?_, fun hlong => ?_⟩,
    fun outputs houtputs => ?_⟩, fun hinvalid => ?_, argMinMax_isValid operand axis positionType⟩
  · obtain ⟨cause, hcause, hverdict⟩ := outputs_of_invalid ho hs hinvalid hshort
    exact ⟨cause, infer_eq_error.mpr ⟨cause, hcause, rfl⟩, hverdict⟩
  · exact infer_eq_error.mpr ⟨_, outputs_of_tooLong hlong, rfl⟩
  · exact outputs_isValid ho outputs (infer_eq_ok.mp houtputs)
  · have hdemands : Demands (operand.isValid = true) (argMinMax operand axis positionType) :=
      demands_elementType.first
    exact hdemands (by simp [hinvalid])

/-- A reduction whose closure takes an invalid shape as its second scalar. -/
def invalidCombinator : Operation Shape Signature :=
  .reduce [.of (.real .f32) [4]] [.scalar (.real .f32)] [0]
    ⟨[.scalar (.real .f32), .invalid], [.scalar (.real .f32)]⟩

theorem infer_validity_combinator :
    (∀ literal, invalidCombinator = .constant literal → literal.shape.isValid = true) ∧
      Shape.invalid ∈ invalidCombinator.shapes ∧ ¬invalidCombinator.TooLong ∧
      (∃ cause, invalidCombinator.infer = .error ⟨.reduce, cause⟩) ∧
      ∃ cause, argMinMax .invalid 0 (.signed .w32) = .error cause := by
  have hconstant : ∀ literal, invalidCombinator = .constant literal →
      literal.shape.isValid = true := nofun
  have hmem : Shape.invalid ∈ invalidCombinator.shapes := by decide
  have hshort : ¬invalidCombinator.TooLong := nofun
  obtain ⟨hoperation, hsearch, _⟩ := infer_validity invalidCombinator .invalid 0 (.signed .w32)
  obtain ⟨hrejected, _⟩ := (hoperation hconstant).1 _ hmem rfl
  obtain ⟨cause, hcause, _⟩ := hrejected hshort
  obtain ⟨found, hfound, _⟩ := hsearch rfl
  exact ⟨hconstant, hmem, hshort, ⟨cause, hcause⟩, found, hfound⟩

/-- The first two inputs have one layer more than a size can count, so that the third one, which is
no valid shape, is not rejected. -/
theorem invalid_input_overflows :
    let o : Operation Shape Signature :=
      .concatenate [.of (.real .f32) [0xFFFFFFFFFFFFFFFF], .of (.real .f32) [1], .invalid] 0
    Shape.invalid ∈ o.shapes ∧ Shape.invalid.isValid = false ∧
      o.infer = .error ⟨.concatenate, .fault (.overflow .add)⟩ :=
  ⟨by decide, rfl, by decide⟩

end Operation

end TensorProgram
