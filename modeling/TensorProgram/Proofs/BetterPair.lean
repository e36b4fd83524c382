import TensorProgram.Proofs.Evaluation
import TensorProgram.Proofs.Recorded

/-!
# The closure of a search

`Builder.fillBetterPair` records seven statements, `fillBetterPair_adds`.  On two elements with
their positions they pick the better element, and the smaller position of equal ones:
`Program.HoldsBetterPair.call?`.
-/

namespace TensorProgram

/-! ## What is recorded -/

/-- The attributes of a comparison in the order of a type. -/
def comparisonAttributes (d : ComparisonDirection) (t : ElementType) : AttributeTable :=
  .ofList [("comparison_direction", .verbatim d.render),
    ("compare_type", .verbatim (ComparisonType.defaultFor t).render)]

/-- The statements of the closure.  Its inputs are the values 0 to 3. -/
def betterPairStatements (body : FunctionId) (e : Extremum) (t : ElementType) : List Statement :=
  [⟨.compare, [⟨body, 0⟩, ⟨body, 2⟩], comparisonAttributes e.better t, none, [⟨body, 4⟩]⟩,
    ⟨.compare, [⟨body, 0⟩, ⟨body, 2⟩], comparisonAttributes .equal t, none, [⟨body, 5⟩]⟩,
    ⟨.select, [⟨body, 4⟩, ⟨body, 0⟩, ⟨body, 2⟩], [], none, [⟨body, 6⟩]⟩,
    ⟨.select, [⟨body, 4⟩, ⟨body, 1⟩, ⟨body, 3⟩], [], none, [⟨body, 7⟩]⟩,
    ⟨.binary .minimum, [⟨body, 1⟩, ⟨body, 3⟩], [], none, [⟨body, 8⟩]⟩,
    ⟨.select, [⟨body, 5⟩, ⟨body, 8⟩, ⟨body, 7⟩], [], none, [⟨body, 9⟩]⟩,
    ⟨.regionReturn, [⟨body, 6⟩, ⟨body, 9⟩], [], none, []⟩]

namespace Builder

open Program

variable {α β : Type} {id : FunctionId} {w w' w'' : Function.View} {a : α}

/-- In every program where the function has the one view, the builder succeeds, gives it the other
view and adds the statements to it. -/
def Adds (b : Builder α) (id : FunctionId) (w : Function.View) (a : α) (w' : Function.View)
    (statements : List Statement) : Prop :=
  ∀ p, p.view? id = some w → ∃ q, b.run p = (.ok a, q) ∧ q.view? id = some w' ∧
    q.body id = p.body id ++ statements

theorem Adds.bind {b : Builder α} {next : α → Builder β} {c : β} {ss ss' : List Statement}
    (h : b.Adds id w a w' ss) (h' : (next a).Adds id w' c w'' ss') :
    (b >>= next).Adds id w c w'' (ss ++ ss') := by
  intro p hview
  obtain ⟨q, hq, hqview, hqbody⟩ := h p hview
  obtain ⟨r, hr, hrview, hrbody⟩ := h' q hqview
  exact ⟨r, (run_bind_ok hq).trans hr, hrview, by rw [hrbody, hqbody, List.append_assoc]⟩

theorem Turns.adds {b : Builder α} {ss : List Statement} (h : b.Turns id w a w')
    (hbody : ∀ p q, p.view? id = some w → b.run p = (.ok a, q) → q.body id = p.body id ++ ss) :
    b.Adds id w a w' ss := by
  intro p hview
  obtain ⟨q, hq, hqview, _⟩ := h p hview
  exact ⟨q, hq.1, hqview, hbody p q hview hq.1⟩

theorem input_adds (hopen : w.outputs? = none) (s : Shape) :
    (input id s).Adds id w ⟨id, w.shapes.length⟩
      { w with inputs := w.inputs ++ [⟨id, w.shapes.length⟩], shapes := w.shapes ++ [s] } [] :=
  (input_turns hopen s).adds fun p q _ h => by rw [(input_leaves id id s).run_eq h, List.append_nil]

/-- What an operation that is no collective appends. -/
theorem run_append_body {p q : Program} {o : Operation Value FunctionId} {values : List Value}
    (ho : o.isCollective = false) (h : (append id o).run p = (.ok values, q)) :
    ∃ shaped outputs, o.traverse (p.shapeOf id) (p.closureSignature id) = .ok shaped ∧
      shaped.infer = .ok outputs ∧ values.length = outputs.length ∧
      q.body id = p.body id ++ [⟨o.kind, o.operands, .ofList (shaped.explicit outputs).attributes,
        o.closureUse?, values⟩] := by
  obtain ⟨f, shaped, outputs, hf, _, hresolve, rfl, rfl⟩ := run_append_eq_ok.mp h
  obtain ⟨_, htraverse, hinfer⟩ := resolve_eq_ok.mp hresolve
  refine ⟨shaped, outputs, htraverse, hinfer, by simp [consecutiveValues], ?_⟩
  rw [body_withOperation hf, if_pos rfl, newStatement, channelAttributes, ho]
  simp

/-- The statement of an operation with one output. -/
theorem run_appendSingle_body {p q : Program} {o : Operation Value FunctionId} {v : Value}
    {shaped : Operation Shape Inference.Signature} {s : Shape} (ho : o.isCollective = false)
    (htraverse : o.traverse (p.shapeOf id) (p.closureSignature id) = .ok shaped)
    (hinfer : shaped.infer = .ok [s]) (h : (appendSingle id o).run p = (.ok v, q)) :
    q.body id = p.body id ++
      [⟨o.kind, o.operands, .ofList (shaped.explicit [s]).attributes, o.closureUse?, [v]⟩] := by
  obtain ⟨values, happend, hv⟩ := run_appendSingle h
  obtain ⟨shaped', outputs, htraverse', hinfer', hlength, hbody⟩ := run_append_body ho happend
  obtain rfl : shaped = shaped' := Except.ok.inj (htraverse.symm.trans htraverse')
  obtain rfl : [s] = outputs := Except.ok.inj (hinfer.symm.trans hinfer')
  obtain ⟨u, rfl⟩ := List.length_eq_one_iff.mp hlength
  obtain rfl : u = v := Option.some.inj hv
  exact hbody

/-- The statement of an operation whose operands are in view. -/
theorem appendSingle_adds (hopen : w.outputs? = none) {o : Operation Value FunctionId}
    {shaped : Operation Shape Inference.Signature} {s : Shape} (hclosure : o.computation? = none)
    (ho : o.isCollective = false) (h : o.Suits id w shaped s) :
    (appendSingle id o).Adds id w ⟨id, w.shapes.length⟩ { w with shapes := w.shapes ++ [s] }
      [⟨o.kind, o.operands, .ofList (shaped.explicit [s]).attributes, none,
        [⟨id, w.shapes.length⟩]⟩] := by
  refine (appendSingle_turns hopen hclosure h).adds fun p q hview hrun => ?_
  rw [run_appendSingle_body ho (h.traverse p hview) h.infer hrun, Operation.closureUse?, hclosure]
  rfl

/-- The return of a closure is its last statement. -/
theorem return_adds {parent root : FunctionId} (hrole : w.role = .closure parent root)
    (hopen : w.outputs? = none) {values : List Value} {shapes : List Shape}
    (hvalues : ∀ p : Program, p.view? id = some w → values.mapM (p.shapeOf id) = .ok shapes) :
    (returnValues id values).Adds id w () { w with outputs? := some shapes }
      [⟨.regionReturn, values, [], none, []⟩] := by
  refine (return_turns hopen hvalues).adds fun p q hview h => ?_
  obtain ⟨f, hf, _, rfl⟩ := exists_open_of_view hview hopen
  obtain ⟨outputs, _, rfl⟩ := run_returnSharded_eq_ok.mp h
  have hclosure : f.isClosure = true := by
    have hrole' : f.role = .closure parent root := hrole
    simp [Function.isClosure, Function.parent?, hrole']
  have hkind : returnKind p id = .regionReturn := by simp [returnKind, hf, hclosure]
  rw [body_withReturn hf, if_pos rfl, newStatement, hkind]
  rfl

/-- The closure of the search is filled with its seven statements. -/
theorem fillBetterPair_adds {t : ElementType} (ht : t.isComplex = false) (e : Extremum)
    (positionType : ElementType) (parent root : FunctionId) :
    (fillBetterPair id e t positionType).Adds id ⟨.closure parent root, [], [], none, false⟩ ()
      (betterPairView id (.closure parent root) t positionType)
      (betterPairStatements id e t) := by
  unfold fillBetterPair
  refine (input_adds rfl _).bind ?_
  refine (input_adds rfl _).bind ?_
  refine (input_adds rfl _).bind ?_
  refine (input_adds rfl _).bind ?_
  refine (appendSingle_adds rfl rfl rfl (compare_suits ht 0 2 rfl rfl _)).bind ?_
  refine (appendSingle_adds rfl rfl rfl (compare_suits ht 0 2 rfl rfl _)).bind ?_
  refine (appendSingle_adds rfl rfl rfl (select_suits 4 0 2 rfl rfl rfl)).bind ?_
  refine (appendSingle_adds rfl rfl rfl (select_suits 4 1 3 rfl rfl rfl)).bind ?_
  refine (appendSingle_adds rfl rfl rfl (minimum_suits 1 3 rfl rfl)).bind ?_
  refine (appendSingle_adds rfl rfl rfl (select_suits 5 8 7 rfl rfl rfl)).bind ?_
  refine return_adds rfl rfl fun p hview => mapM_eq_ok.mpr (.cons ?_ (.cons ?_ .nil))
  · exact shapeOf_view hview 6 rfl
  · exact shapeOf_view hview 9 rfl

end Builder

/-! ## What it computes -/

section Evaluation

variable {d : ComparisonDirection} {e : Extremum} {t positionType : ElementType} {x y i j : Int}

theorem comparisonAttributes_eq (d : ComparisonDirection) (t : ElementType) :
    comparisonAttributes d t =
      [("compare_type", .verbatim (ComparisonType.defaultFor t).render),
        ("comparison_direction", .verbatim d.render)] :=
  rfl

theorem choice?_direction (d : ComparisonDirection) (t : ElementType) :
    (comparisonAttributes d t).choice? "comparison_direction" ComparisonDirection.all
      ComparisonDirection.render = some d := by
  rw [comparisonAttributes_eq]
  cases d <;> rfl

theorem choice?_order (d : ComparisonDirection) (t : ElementType) :
    (comparisonAttributes d t).choice? "compare_type" ComparisonType.all ComparisonType.render =
      some (.defaultFor t) := by
  rw [comparisonAttributes_eq]
  cases ComparisonType.defaultFor t <;> rfl

/-- A comparison in the order of an integer type compares the numbers. -/
theorem result?_compare (ht : t.isInteger = true) (hx : t.holds x) (hy : t.holds y)
    (inputs outputs : List Value) :
    (Statement.mk .compare inputs (comparisonAttributes d t) none outputs).result?
      [⟨t, x⟩, ⟨t, y⟩] = some ⟨.boolean, if d.compares x y then 1 else 0⟩ := by
  simp [Statement.result?, choice?_direction, choice?_order,
    ComparisonType.reading?_defaultFor ht hx, ComparisonType.reading?_defaultFor ht hy]

theorem result?_select (b : Bool) (inputs outputs : List Value) :
    (Statement.mk .select inputs [] none outputs).result?
      [⟨.boolean, if b then 1 else 0⟩, ⟨t, x⟩, ⟨t, y⟩] = some ⟨t, if b then x else y⟩ := by
  cases b with
  | true => simp [Statement.result?]
  | false => simp [Statement.result?]

theorem result?_minimum (inputs outputs : List Value) :
    (Statement.mk (.binary .minimum) inputs [] none outputs).result? [⟨t, x⟩, ⟨t, y⟩] =
      some ⟨t, min x y⟩ := by
  simp [Statement.result?]

/-- The better of two numbers with their positions, and the smaller position of equal numbers. -/
def Extremum.pick (e : Extremum) (a b : Int × Int) : Int × Int :=
  (if e.better.compares a.1 b.1 then a.1 else b.1,
    if ComparisonDirection.equal.compares a.1 b.1 then min a.2 b.2
    else if e.better.compares a.1 b.1 then a.2 else b.2)

/-- Values of one function are told apart by their positions. -/
theorem lookup_values (body : FunctionId) (i j : Nat) (u : Element)
    (known : List (Value × Element)) :
    ((⟨body, j⟩, u) :: known).lookup ⟨body, i⟩ =
      if i = j then some u else known.lookup ⟨body, i⟩ := by
  rw [List.lookup_cons]
  by_cases h : i = j
  · simp [h]
  · rw [if_neg h, beq_false_of_ne (by simpa using h)]

/-- The closure has four inputs and the seven statements. -/
structure Program.HoldsBetterPair (p : Program) (body : FunctionId) (e : Extremum)
    (t positionType : ElementType) : Prop where
  view : ∃ w, p.view? body = some w ∧
    w.inputs = [⟨body, 0⟩, ⟨body, 1⟩, ⟨body, 2⟩, ⟨body, 3⟩] ∧
    w.shapes = Builder.betterPairShapes t positionType
  statements : p.body body = betterPairStatements body e t

/-- The closure of the search picks the better of two elements. -/
theorem Program.HoldsBetterPair.call? {p : Program} {body : FunctionId}
    (h : p.HoldsBetterPair body e t positionType) (ht : t.isInteger = true) (hx : t.holds x)
    (hi : positionType.holds i) (hy : t.holds y) (hj : positionType.holds j) :
    p.call? body [⟨t, x⟩, ⟨positionType, i⟩, ⟨t, y⟩, ⟨positionType, j⟩] =
      some [⟨t, (e.pick (x, i) (y, j)).1⟩, ⟨positionType, (e.pick (x, i) (y, j)).2⟩] := by
  obtain ⟨⟨w, hview, hinputs, hshapes⟩, hbody⟩ := h
  obtain ⟨f, hf, rfl⟩ := Option.map_eq_some_iff.mp hview
  replace hinputs : f.inputs = [⟨body, 0⟩, ⟨body, 1⟩, ⟨body, 2⟩, ⟨body, 3⟩] := hinputs
  rw [body_eq hf] at hbody
  have htypes : f.inputs.map p.shape? =
      [⟨t, x⟩, ⟨positionType, i⟩, ⟨t, y⟩, ⟨positionType, j⟩].map
        fun a : Element => some (.scalar a.type) := by
    simp [hinputs, shape?_view hview, hshapes, Builder.betterPairShapes]
  have hheld : ∀ a ∈ [⟨t, x⟩, ⟨positionType, i⟩, ⟨t, y⟩, ⟨positionType, j⟩], Element.IsHeld a := by
    simp [Element.IsHeld, hx, hi, hy, hj]
  rw [Program.call?, hf, Option.bind_eq_bind, Option.bind_some, if_pos ⟨htypes, hheld⟩, hbody,
    hinputs]
  have hcompare (d : ComparisonDirection) := result?_compare (d := d) ht hx hy
  simp [betterPairStatements, evaluate?, lookup_values, hcompare, result?_select, result?_minimum,
    Extremum.pick]

end Evaluation

end TensorProgram
