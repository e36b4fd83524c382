import TensorProgram.Program.Extremum
import TensorProgram.Proofs.Axes
import TensorProgram.Proofs.Runs

/-!
# The search for an extreme element

`Builder.argExtremum` appends some twelve statements after its one check.  This module
shows that none of them can fail: `argExtremum_allOrNothing`.

The checks of an operation look at very little of a function, its `Function.View`: the
inputs, the shapes of the values, the shapes of the outputs, and whether a closure is in
use.  `Builder.Turns` says how a builder changes the view of one function, so a sequence of
steps is carried out on lists of shapes.
-/

namespace TensorProgram

/-! ## Inference on the operands of the search -/

namespace Inference

open ShapeError (Cause)

/-- What a search along an axis has been checked for. -/
theorem argMinMax_eq_ok {s : Shape} {axis : Int} {positionType : ElementType} {output : Shape}
    (h : argMinMax s axis positionType = .ok output) :
    s.isScalar = false ∧ positionType.isInteger = true ∧
      ∃ a : Nat, fromFront axis s.rank = a ∧ a < s.rank ∧
        output = .of positionType (s.dimensions.eraseIdx a) := by
  simp only [argMinMax, requireClass, bind_eq_ok, require_eq_ok, normalizeAxis_eq_ok, pure_eq_ok,
    Except.ok.injEq] at h
  obtain ⟨_, _, _, _, _, hscalar, _, hinteger, a, ⟨haxis, ha⟩, _, _, houtput⟩ := h
  exact ⟨by simpa using hscalar, hinteger, a, haxis, ha, houtput.symm⟩

theorem compare_scalars {t : ElementType} (ht : t.isComplex = false) (d : ComparisonDirection) :
    Inference.compare (.scalar t) (.scalar t) d none = .ok (.scalar .boolean) := by
  have hsuits : (ComparisonType.defaultFor t).suits t = true := by
    cases t with
    | complex precision => cases ht
    | _ => rfl
  simp [Inference.compare, commonElementType, elementType, require, hsuits, ht,
    broadcastDimensions, broadcastDimensions?, Shape.scalar, Shape.of]

theorem select_scalars (t : ElementType) :
    Inference.select (.scalar .boolean) (.scalar t) (.scalar t) = .ok (.scalar t) := by
  simp [Inference.select, commonElementType, elementType, require, requireClass,
    ElementClass.contains, ElementType.isBoolean, Shape.scalar, Shape.of, Shape.rank]

theorem minimum_scalars (t : ElementType) :
    Inference.binary (.binary .minimum) (.scalar t) (.scalar t) = .ok (.scalar t) := by
  simp [Inference.binary, commonElementType, elementType, require, requireCapabilities,
    OpKind.capabilities, BinaryOp.restriction?, Capability.elementClass?, List.filterMap,
    binaryElementType, broadcastDimensions, broadcastDimensions?, Shape.scalar, Shape.of]

section Reduction

variable {s : Shape} {t positionType : ElementType} {a : Nat}

/-- The positions along an axis of the operand. -/
theorem iota_positions (hs : s.isScalar = false) (hinteger : positionType.isInteger = true)
    (ha : a < s.rank) :
    iota (s.withElementType positionType) a = .ok (s.withElementType positionType) := by
  obtain ⟨t?, dimensions⟩ := s
  have hrank : a < dimensions.length := ha
  have hne : dimensions ≠ [] := List.ne_nil_of_length_pos (Nat.zero_lt_of_lt hrank)
  have hboolean : positionType.isBoolean = false := by
    cases positionType with
    | boolean => cases hinteger
    | _ => rfl
  simp [iota, elementType, Shape.withElementType, requireCapabilities, OpKind.capabilities,
    Capability.elementClass?, List.filterMap, requireClass, require, ElementClass.contains,
    hboolean, Shape.isScalar, Shape.isValid, hne, Shape.rank, normalizeAxis_natCast hrank]

/-- The reduction of the elements together with their positions. -/
theorem reduce_positions (positionType : ElementType) (ht : elementType s = .ok t)
    (ha : a < s.rank) :
    ∃ dimensions, reduce [s, s.withElementType positionType] [.scalar t, .scalar positionType]
      [(a : Int)]
      ⟨[.scalar t, .scalar positionType, .scalar t, .scalar positionType],
        [.scalar t, .scalar positionType]⟩ =
      .ok [.of t dimensions, .of positionType dimensions] := by
  obtain ⟨t?, dimensions⟩ := s
  have hrank : a < dimensions.length := ha
  obtain rfl : t? = some t := by
    cases t? with
    | none => cases ht
    | some u => simpa [elementType] using ht
  refine ⟨extentsExcept dimensions [a], ?_⟩
  simp [reduce, reducedElementTypes, reducedElementType, elementType, scalarElementType,
    Shape.withElementType, require, Shape.scalar, Shape.of, Shape.rank, entry,
    normalizeAxes_natCast hrank, requireCombinator, requireScalarLike, Shape.isScalar,
    Shape.isValid, List.zipIdx]

end Reduction

end Inference

/-! ## What checks see of a function -/

/-- The parts of a function that the checks of an operation look at. -/
structure Function.View where
  role : Role
  inputs : List Value
  shapes : List Shape
  outputs? : Option (List Shape)
  consumed : Bool

def Function.view (f : Function) : Function.View where
  role := f.role
  inputs := f.inputs
  shapes := f.values.map ValueData.shape
  outputs? := f.returned?.map (·.map Output.shape)
  consumed := f.consumed

namespace Program

def view? (p : Program) (id : FunctionId) : Option Function.View :=
  (p.function? id).map Function.view

variable {p : Program} {id : FunctionId} {w : Function.View}

theorem exists_open_of_view (h : p.view? id = some w) (hopen : w.outputs? = none) :
    ∃ f, p.function? id = some f ∧ f.returned? = none ∧ f.view = w := by
  obtain ⟨f, hf, rfl⟩ := Option.map_eq_some_iff.mp h
  exact ⟨f, hf, by simpa [Function.view] using hopen, rfl⟩

/-- A value in view is in scope. -/
theorem shapeOf_view (h : p.view? id = some w) (index : Nat) {s : Shape}
    (hs : w.shapes[index]? = some s) : p.shapeOf id ⟨id, index⟩ = .ok s := by
  obtain ⟨f, hf, rfl⟩ := Option.map_eq_some_iff.mp h
  rw [shapeOf_eq_ok_iff hf]
  refine ⟨rfl, ?_⟩
  rw [← hs]
  simp [Function.view]

theorem shape?_view (h : p.view? id = some w) (index : Nat) :
    p.shape? ⟨id, index⟩ = w.shapes[index]? := by
  obtain ⟨f, hf, rfl⟩ := Option.map_eq_some_iff.mp h
  simp [shape?, valueData?, hf, Function.view]

/-- A closure in view that is ready for its parent. -/
theorem closureSignature_view {parent : FunctionId} {v : Function.View}
    (hparent : p.view? parent = some v) (h : p.view? id = some w) {root : FunctionId}
    (hrole : w.role = .closure parent root) {outputs : List Shape}
    (houtputs : w.outputs? = some outputs) (hconsumed : w.consumed = false) :
    p.closureSignature parent id = .ok ⟨w.inputs.filterMap p.shape?, outputs⟩ := by
  obtain ⟨g, hg, rfl⟩ := Option.map_eq_some_iff.mp hparent
  obtain ⟨f, hf, rfl⟩ := Option.map_eq_some_iff.mp h
  obtain ⟨outs, houts, rfl⟩ := Option.map_eq_some_iff.mp houtputs
  refine closureSignature_eq_ok.mpr ⟨by simp [hg], f, hf, ?_, ?_, hconsumed, ?_⟩
  · have hrole' : f.role = .closure parent root := hrole
    simp [Function.parent?, hrole']
  · simp [Function.isReturned, houts]
  · simp [Function.view, Function.outputs, houts]

theorem view?_addFunction (p : Program) (role : Role) (j : FunctionId) :
    (p.addFunction role).2.view? j =
      if j = p.functions.length then some ⟨role, [], [], none, false⟩ else p.view? j := by
  rw [view?, function?_addFunction]
  split_ifs <;> rfl

theorem view?_withInput {f : Function} (hf : p.function? id = some f) (data : ValueData)
    (j : FunctionId) :
    (p.withInput id data).view? j = (p.view? j).map fun v =>
      if id = j then
        { v with
          inputs := v.inputs ++ [⟨id, f.values.length⟩]
          shapes := v.shapes ++ [data.shape] }
      else v := by
  rw [view?, function?_withInput data hf, view?, Option.map_map, Option.map_map]
  congr 1
  funext g
  by_cases h : id = j
  · simp [h, Function.view]
  · simp [h, Function.view]

theorem view?_withOperation {f : Function} (hf : p.function? id = some f)
    {o : Operation Value FunctionId} (hclosure : o.computation? = none)
    (shaped : Operation Shape Inference.Signature) (outputs : List Shape) (j : FunctionId) :
    (p.withOperation id o shaped outputs).view? j = (p.view? j).map fun v =>
      if id = j then { v with shapes := v.shapes ++ outputs } else v := by
  rw [view?, function?_withOperation hf, view?, Option.map_map, Option.map_map]
  congr 1
  funext g
  have hshapes (first : Nat) : (numberedData first outputs).map ValueData.shape = outputs := by
    simp [numberedData, Function.comp_def]
  by_cases h : id = j
  · simp [h, Function.view, Operation.closureUse?, hclosure, hshapes]
  · simp [h, Function.view, Operation.closureUse?, hclosure]

theorem view?_withReturn {f : Function} (hf : p.function? id = some f) (values : List Value)
    (outputs : List Output) (j : FunctionId) :
    (p.withReturn id values outputs).view? j = (p.view? j).map fun v =>
      if id = j then { v with outputs? := some (outputs.map Output.shape) } else v := by
  rw [view?, withReturn, function?_markReturned hf, view?, Option.map_map, Option.map_map]
  congr 1
  funext g
  by_cases h : id = j
  · simp [h, Function.view]
  · simp [h, Function.view]

end Program

/-- Where the function has the view, the operands have these shapes and there is one output. -/
structure Operation.Suits (o : Operation Value FunctionId) (id : FunctionId) (w : Function.View)
    (shaped : Operation Shape Inference.Signature) (s : Shape) : Prop where
  traverse : ∀ p : Program, p.view? id = some w →
    o.traverse (p.shapeOf id) (p.closureSignature id) = .ok shaped
  infer : shaped.infer = .ok [s]

/-! ## Steps on views -/

namespace Builder

open Program Inference

variable {α β : Type} {id : FunctionId} {w w' w'' : Function.View} {a : α}

/-- In every program where the function has the one view, the builder succeeds and gives it
the other view.  All other functions keep their views. -/
def Turns (b : Builder α) (id : FunctionId) (w : Function.View) (a : α) (w' : Function.View) :
    Prop :=
  ∀ p, p.view? id = some w → ∃ q, b.Succeeds p a q ∧ q.view? id = some w' ∧
    ∀ j, j ≠ id → q.view? j = p.view? j

theorem Turns.bind {b : Builder α} {next : α → Builder β} {c : β} (h : b.Turns id w a w')
    (h' : (next a).Turns id w' c w'') : (b >>= next).Turns id w c w'' := by
  intro p hview
  obtain ⟨q, hq, hqview, hqframe⟩ := h p hview
  obtain ⟨r, hr, hrview, hrframe⟩ := h' q hqview
  exact ⟨r, hq.bind hr, hrview, fun j hj => (hrframe j hj).trans (hqframe j hj)⟩

/-- An open function takes a positional input. -/
theorem input_turns (hopen : w.outputs? = none) (s : Shape) :
    (input id s).Turns id w ⟨id, w.shapes.length⟩
      { w with inputs := w.inputs ++ [⟨id, w.shapes.length⟩], shapes := w.shapes ++ [s] } := by
  intro p hview
  obtain ⟨f, hf, hnone, rfl⟩ := exists_open_of_view hview hopen
  have hlength : f.view.shapes.length = f.values.length := by simp [Function.view]
  rw [hlength]
  refine ⟨_, input_succeeds hf hnone s, ?_, ?_⟩
  · rw [view?_withInput hf, hview]
    simp
  · intro j hj
    rw [view?_withInput hf]
    simp [Ne.symm hj]

/-- An open function takes an operation whose operands are in view. -/
theorem append_view {p : Program} (hview : p.view? id = some w) (hopen : w.outputs? = none)
    {o : Operation Value FunctionId} (shaped : Operation Shape Inference.Signature)
    {outputs : List Shape}
    (htraverse : o.traverse (p.shapeOf id) (p.closureSignature id) = .ok shaped)
    (hinfer : shaped.infer = .ok outputs) :
    (append id o).Succeeds p (consecutiveValues id w.shapes.length outputs.length)
      (p.withOperation id o shaped outputs) := by
  obtain ⟨f, hf, hnone, rfl⟩ := exists_open_of_view hview hopen
  have hlength : f.view.shapes.length = f.values.length := by simp [Function.view]
  rw [hlength]
  exact append_succeeds hf hnone (resolve_eq_ok.mpr ⟨⟨f, hf, fun _ => hnone⟩, htraverse, hinfer⟩)

theorem appendSingle_turns (hopen : w.outputs? = none) {o : Operation Value FunctionId}
    {shaped : Operation Shape Inference.Signature} {s : Shape} (hclosure : o.computation? = none)
    (h : o.Suits id w shaped s) :
    (appendSingle id o).Turns id w ⟨id, w.shapes.length⟩
      { w with shapes := w.shapes ++ [s] } := by
  intro p hview
  obtain ⟨f, hf, _, _⟩ := exists_open_of_view hview hopen
  have happend := append_view hview hopen shaped (h.traverse p hview) h.infer
  refine ⟨_, happend.bind (succeeds_check rfl), ?_, ?_⟩
  · rw [view?_withOperation hf hclosure, hview]
    simp
  · intro j hj
    rw [view?_withOperation hf hclosure]
    simp [Ne.symm hj]

/-- Without shardings, a return only asks for values in scope. -/
theorem checkReturn_unsharded {p : Program} {f : Function} {values : List Value}
    {shapes : List Shape} (hopen : p.openFunction id = .ok f)
    (hvalues : values.mapM (p.shapeOf id) = .ok shapes) :
    checkReturn id values (values.map fun _ => none) p = .ok (shapes.map (⟨·, none⟩)) := by
  have hlength : values.length = shapes.length := (mapM_eq_ok.mp hvalues).length_eq
  have hzip : shapes.zip (values.map fun _ => (none : Option Sharding)) =
      shapes.map fun shape => (shape, none) := by
    rw [List.map_const', hlength, ← List.map_const']
    simpa using List.zip_map' (f := fun s : Shape => s) (g := fun _ => (none : Option Sharding))
  simp only [checkReturn, hopen, hvalues, ok_bind, List.length_map, hzip]
  rw [bind_eq_ok]
  refine ⟨(), by simp [Program.require], ?_⟩
  rw [mapM_eq_ok, List.forall₂_map_left_iff, List.forall₂_map_right_iff, List.forall₂_same]
  exact fun _ _ => rfl

theorem return_turns (hopen : w.outputs? = none) {values : List Value} {shapes : List Shape}
    (hvalues : ∀ p : Program, p.view? id = some w → values.mapM (p.shapeOf id) = .ok shapes) :
    (returnValues id values).Turns id w () { w with outputs? := some shapes } := by
  intro p hview
  obtain ⟨f, hf, hnone, _⟩ := exists_open_of_view hview hopen
  have hreturn := checkReturn_unsharded (openFunction_eq_ok.mpr ⟨hf, hnone⟩) (hvalues p hview)
  refine ⟨_, returnSharded_succeeds hreturn, ?_, ?_⟩
  · rw [view?_withReturn hf, hview]
    simp [Function.comp_def]
  · intro j hj
    rw [view?_withReturn hf]
    simp [Ne.symm hj]

/-! ## The closure of the search -/

/-- The values of the closure: its inputs, the two comparisons and what is picked. -/
def betterPairShapes (t positionType : ElementType) : List Shape :=
  [.scalar t, .scalar positionType, .scalar t, .scalar positionType, .scalar .boolean,
    .scalar .boolean, .scalar t, .scalar positionType, .scalar positionType, .scalar positionType]

/-- The view of the closure when it is complete. -/
def betterPairView (body : FunctionId) (role : Role) (t positionType : ElementType) :
    Function.View where
  role := role
  inputs := [⟨body, 0⟩, ⟨body, 1⟩, ⟨body, 2⟩, ⟨body, 3⟩]
  shapes := betterPairShapes t positionType
  outputs? := some [.scalar t, .scalar positionType]
  consumed := false

section Closure

variable {t : ElementType}

theorem compare_suits (ht : t.isComplex = false) (i j : Nat)
    (hi : w.shapes[i]? = some (.scalar t)) (hj : w.shapes[j]? = some (.scalar t))
    (d : ComparisonDirection) :
    Operation.Suits (.compare ⟨id, i⟩ ⟨id, j⟩ d none) id w
      (.compare (.scalar t) (.scalar t) d none) (.scalar .boolean) where
  traverse p hview := by
    simp [Operation.traverse, shapeOf_view hview i hi, shapeOf_view hview j hj]
  infer := by
    rw [Operation.infer_eq_ok, Operation.outputs, compare_scalars ht]
    rfl

theorem select_suits (i j k : Nat)
    (hi : w.shapes[i]? = some (.scalar .boolean)) (hj : w.shapes[j]? = some (.scalar t))
    (hk : w.shapes[k]? = some (.scalar t)) :
    Operation.Suits (.select ⟨id, i⟩ ⟨id, j⟩ ⟨id, k⟩) id w
      (.select (.scalar .boolean) (.scalar t) (.scalar t)) (.scalar t) where
  traverse p hview := by
    simp [Operation.traverse, shapeOf_view hview i hi, shapeOf_view hview j hj,
      shapeOf_view hview k hk]
  infer := by
    rw [Operation.infer_eq_ok, Operation.outputs, select_scalars]
    rfl

theorem minimum_suits (i j : Nat)
    (hi : w.shapes[i]? = some (.scalar t)) (hj : w.shapes[j]? = some (.scalar t)) :
    Operation.Suits (.binary (.binary .minimum) ⟨id, i⟩ ⟨id, j⟩) id w
      (.binary (.binary .minimum) (.scalar t) (.scalar t)) (.scalar t) where
  traverse p hview := by
    simp [Operation.traverse, shapeOf_view hview i hi, shapeOf_view hview j hj]
  infer := by
    rw [Operation.infer_eq_ok, Operation.outputs, minimum_scalars]
    rfl

/-- The closure of the search is filled without a failure. -/
theorem fillBetterPair_turns (ht : t.isComplex = false) (e : Extremum) (positionType : ElementType)
    (role : Role) :
    (fillBetterPair id e t positionType).Turns id ⟨role, [], [], none, false⟩ ()
      (betterPairView id role t positionType) := by
  unfold fillBetterPair
  refine (input_turns rfl _).bind ?_
  refine (input_turns rfl _).bind ?_
  refine (input_turns rfl _).bind ?_
  refine (input_turns rfl _).bind ?_
  refine (appendSingle_turns rfl rfl (compare_suits ht 0 2 rfl rfl _)).bind ?_
  refine (appendSingle_turns rfl rfl (compare_suits ht 0 2 rfl rfl _)).bind ?_
  refine (appendSingle_turns rfl rfl (select_suits 4 0 2 rfl rfl rfl)).bind ?_
  refine (appendSingle_turns rfl rfl (select_suits 4 1 3 rfl rfl rfl)).bind ?_
  refine (appendSingle_turns rfl rfl (minimum_suits 1 3 rfl rfl)).bind ?_
  refine (appendSingle_turns rfl rfl (select_suits 5 8 7 rfl rfl rfl)).bind ?_
  refine return_turns rfl fun p hview => mapM_eq_ok.mpr (.cons ?_ (.cons ?_ .nil))
  · exact shapeOf_view hview 6 rfl
  · exact shapeOf_view hview 9 rfl

end Closure

/-! ## The search -/

/-- What is known once a search has passed its check. -/
theorem checkSearch_eq_ok {e : Extremum} {operand : Value} {axis : Int}
    {positionType : ElementType} {p : Program} {search : ExtremumSearch}
    (h : checkSearch id e operand axis positionType p = .ok search) :
    (∃ f, p.openFunction id = .ok f) ∧ p.shapeOf id operand = .ok search.shape ∧
      elementType search.shape = .ok search.elementType ∧
      search.elementType.isComplex = false ∧
      search.worst.shape = .scalar search.elementType ∧
      search.zero.shape = .scalar positionType ∧
      ∃ output, argMinMax search.shape axis positionType = .ok output := by
  simp only [checkSearch, bind_eq_ok, mapError_eq_ok] at h
  obtain ⟨f, hf, shape, hshape, output, hsearch, t, ht, h⟩ := h
  cases hworst : e.worst? t with
  | none => rw [hworst] at h; cases h
  | some worst =>
    rw [hworst] at h
    simp only [bind_eq_ok, Literal.ofElements, mapError_eq_ok, pure_eq_ok, Except.ok.injEq] at h
    obtain ⟨zero, hzero, rfl⟩ := h
    have hcomplex : t.isComplex = false := by
      cases t with
      | complex precision => cases hworst
      | _ => rfl
    have hzero' : zero.shape = .scalar positionType := by
      simp only [Literal.check, bind_eq_ok, pure_eq_ok, Except.ok.injEq] at hzero
      obtain ⟨_, _, _, _, _, _, _, _, rfl⟩ := hzero
      rfl
    exact ⟨⟨f, hf⟩, hshape, ht, hcomplex, rfl, hzero', output, hsearch⟩

theorem infer_iota_positions {s : Shape} {positionType : ElementType} {a : Nat}
    (hs : s.isScalar = false) (hinteger : positionType.isInteger = true) (ha : a < s.rank) :
    Operation.infer (.iota (s.withElementType positionType) a) =
      .ok [s.withElementType positionType] := by
  rw [Operation.infer_eq_ok, Operation.outputs, iota_positions hs hinteger ha]
  rfl

theorem iota_suits {s : Shape} {positionType : ElementType} {a : Nat} (hs : s.isScalar = false)
    (hinteger : positionType.isInteger = true) (ha : a < s.rank) :
    Operation.Suits (.iota (s.withElementType positionType) a) id w
      (.iota (s.withElementType positionType) a) (s.withElementType positionType) where
  traverse _ _ := rfl
  infer := infer_iota_positions hs hinteger ha

theorem constant_suits (literal : Literal) :
    Operation.Suits (.constant literal) id w (.constant literal) literal.shape where
  traverse _ _ := rfl
  infer := rfl

/-- A closure of an open function starts out empty. -/
theorem closure_view {p : Program} (hview : p.view? id = some w) (hopen : w.outputs? = none) :
    ∃ q root, (closure id).Succeeds p p.functions.length q ∧ id ≠ p.functions.length ∧
      q.view? p.functions.length = some ⟨.closure id root, [], [], none, false⟩ ∧
      q.view? id = some w := by
  obtain ⟨f, hf, hnone, rfl⟩ := exists_open_of_view hview hopen
  have hid := Nat.ne_of_lt (lt_of_function? hf)
  refine ⟨_, p.root id, closure_succeeds hf hnone, hid, ?_, ?_⟩
  · rw [view?_addFunction, if_pos rfl]
  · rw [view?_addFunction, if_neg hid, hview]

/-- The reduction takes the completed closure. -/
theorem reduce_view {p : Program} (hview : p.view? id = some w) (hopen : w.outputs? = none)
    {body root : FunctionId} {t positionType : ElementType}
    (hbody : p.view? body = some (betterPairView body (.closure id root) t positionType))
    {s : Shape} {a : Nat} (ht : elementType s = .ok t) (ha : a < s.rank) {i j k l : Nat}
    (hi : w.shapes[i]? = some s) (hj : w.shapes[j]? = some (s.withElementType positionType))
    (hk : w.shapes[k]? = some (.scalar t)) (hl : w.shapes[l]? = some (.scalar positionType)) :
    ∃ q, (append id (.reduce [⟨id, i⟩, ⟨id, j⟩] [⟨id, k⟩, ⟨id, l⟩] [(a : Int)] body)).Succeeds p
      (consecutiveValues id w.shapes.length 2) q := by
  obtain ⟨dimensions, hreduce⟩ := reduce_positions positionType ht ha
  have hinputs : (betterPairView body (.closure id root) t positionType).inputs.filterMap p.shape? =
      [.scalar t, .scalar positionType, .scalar t, .scalar positionType] := by
    simp [betterPairView, betterPairShapes, shape?_view hbody]
  have hsignature := closureSignature_view hview hbody rfl rfl rfl
  rw [hinputs] at hsignature
  refine ⟨_, append_view hview hopen (.reduce [s, s.withElementType positionType]
    [.scalar t, .scalar positionType] [(a : Int)] ⟨_, _⟩) ?_ (Operation.infer_eq_ok.mpr hreduce)⟩
  simp [Operation.traverse, shapeOf_view hview i hi, shapeOf_view hview j hj,
    shapeOf_view hview k hk, shapeOf_view hview l hl, hsignature]

/-- All that the search appends after its check is accepted. -/
theorem argExtremum_succeeds {e : Extremum} {operand : Value} {axis : Int}
    {positionType : ElementType} {p : Program} {search : ExtremumSearch}
    (hsearch : checkSearch id e operand axis positionType p = .ok search) :
    ∃ v q, (argExtremum id e operand axis positionType).Succeeds p v q := by
  obtain ⟨⟨f, hopen⟩, hshape, ht, hcomplex, hworst, hzero, _, houtput⟩ := checkSearch_eq_ok hsearch
  obtain ⟨hscalar, hinteger, a, haxis, ha, _⟩ := argMinMax_eq_ok houtput
  obtain ⟨shape, t, worst, zero⟩ := search
  obtain ⟨owner, index⟩ := operand
  simp only at hshape ht hcomplex hworst hzero hscalar haxis ha ⊢
  obtain ⟨hf, hopen⟩ := openFunction_eq_ok.mp hopen
  obtain ⟨howner, hshape⟩ := (shapeOf_eq_ok_iff hf).mp hshape
  obtain rfl : id = owner := howner.symm
  have hview : p.view? id = some f.view := by simp [view?, hf]
  have hopen : f.view.outputs? = none := by simp [Function.view, hopen]
  have hshape : f.view.shapes[index]? = some shape := by
    rw [← hshape]
    simp [Function.view]
  have hindex : index < f.view.shapes.length := (List.getElem?_eq_some_iff.mp hshape).1
  -- three operands of the reduction are made in the function itself
  obtain ⟨q₁, h₁, hview, _⟩ :=
    appendSingle_turns hopen rfl (iota_suits hscalar hinteger ha) p hview
  obtain ⟨q₂, h₂, hview, _⟩ :=
    appendSingle_turns (by exact hopen) rfl (constant_suits worst) q₁ hview
  obtain ⟨q₃, h₃, hview, _⟩ :=
    appendSingle_turns (by exact hopen) rfl (constant_suits zero) q₂ hview
  have hview : q₃.view? id = some { f.view with
      shapes := f.view.shapes ++
        [shape.withElementType positionType, .scalar t, .scalar positionType] } := by
    simpa [hworst, hzero] using hview
  -- and the computation in a closure
  obtain ⟨q₄, root, h₄, hid, hbody, hview⟩ := closure_view hview (by exact hopen)
  obtain ⟨q₅, h₅, hbody, hframe⟩ := fillBetterPair_turns hcomplex e positionType _ q₄ hbody
  rw [← hframe id hid] at hview
  obtain ⟨q₆, h₆⟩ := reduce_view hview hopen hbody ht ha
    (show (_ ++ _)[index]? = some shape by rwa [List.getElem?_append_left hindex])
    (show (_ ++ _)[f.view.shapes.length]? = _ by simp)
    (show (_ ++ _)[f.view.shapes.length + 1]? = _ by simp)
    (show (_ ++ _)[f.view.shapes.length + 2]? = _ by simp)
  simp only [List.length_append, List.length_cons, List.length_nil] at h₂ h₃
  rw [← haxis] at h₁ h₆
  exact ⟨_, q₆, (succeeds_check hsearch).bind
    (h₁.bind (h₂.bind (h₃.bind (h₄.bind (h₅.bind (h₆.bind (succeeds_check rfl)))))))⟩

theorem argExtremum_allOrNothing (id : FunctionId) (e : Extremum) (operand : Value) (axis : Int)
    (positionType : ElementType) : (argExtremum id e operand axis positionType).AllOrNothing :=
  fun _ => check_bind_cases fun _ hsearch => by
    obtain ⟨v, q, h⟩ := argExtremum_succeeds hsearch
    rw [argExtremum, Succeeds, run_bind_ok (succeeds_check hsearch).1] at h
    exact .inr ⟨v, q, h⟩

end Builder

end TensorProgram
