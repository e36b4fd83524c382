import TensorProgram.Proofs.ConvolutionTexts
import TensorProgram.Proofs.Endings

/-!
# Recorded operations

A statement records an operation on the shapes of its operands: `Program.Records` says that
the parameters of the operation are the attributes of the statement, that its axes are in
range, and that inference gives the shapes of the outputs once more.  The axes stand in the
attributes under the names of their parameters, and they can be read off there:
`Operation.RecordsAxes`.

What `Builder.append` adds records the operation with its axes counted from the front,
`run_append_records`, and so do the statements of a search, `run_argExtremum_records`.

Dimension numbers are recorded as texts, which can be read: `dimensionNumbers_readable`.
-/

namespace TensorProgram

/-! ## Attributes that hold axes -/

theorem Attribute.ofList_injective : Function.Injective ofList := by
  intro xs ys h
  -- only a list with entries has a colon
  have hcolon (text : String) : "array<i64>" ≠ "array<i64: " ++ text ++ ">" := by
    intro htext
    have hchars := congrArg String.toList htext
    simp at hchars
  simp only [ofList, verbatim.injEq] at h
  split_ifs at h with hxs hys hys
  · rw [List.isEmpty_iff.mp hxs, List.isEmpty_iff.mp hys]
  · exact absurd h (hcolon _)
  · exact absurd h.symm (hcolon _)
  · simp only [String.append_left_inj, String.append_right_inj] at h
    exact FieldText.joined_injective h

theorem Operation.index_injective : Function.Injective index := by
  intro x y h
  simp only [index, Attribute.ofTypedInteger, Attribute.verbatim.injEq,
    String.append_left_inj] at h
  exact IntText.injective h

/-- The entry of the table at the name is the value of `x`, and of nothing else. -/
def AttributeTable.Holds {α : Type} (table : AttributeTable) (name : String)
    (value : α → Attribute) (x : α) : Prop :=
  ∀ y, table.find? name = some (value y) ↔ y = x

theorem AttributeTable.Holds.of_injective {α : Type} {table : AttributeTable} {name : String}
    {value : α → Attribute} {x : α} (hvalue : Function.Injective value)
    (hx : table.find? name = some (value x)) : table.Holds name value x := by
  intro y
  rw [hx, Option.some.injEq, hvalue.eq_iff, eq_comm]

namespace Operation

variable {κ : Type}

/-- The table holds the axes of the operation, each list under the name of its parameter.  The
text of a convolution is read among those whose layouts have all axes of a tensor. -/
def RecordsAxes (table : AttributeTable) : Operation Shape κ → Prop
  | broadcastInDim _ _ axes => table.Holds "broadcast_dimensions" .ofList axes
  | transpose _ permutation => table.Holds "permutation" .ofList permutation
  | concatenate _ axis => table.Holds "dimension" index axis
  | gather _ _ d _ => table.Holds "dimension_numbers" (.verbatim ∘ GatherDimensions.render) d
  | scatter _ _ _ d _ =>
    table.Holds "scatter_dimension_numbers" (.verbatim ∘ ScatterDimensions.render) d
  | reduce _ _ axes _ => table.Holds "dimensions" .ofList axes
  | dotGeneral _ _ d =>
    table.Holds "dot_dimension_numbers" (.verbatim ∘ DotDimensions.render) d
  | convolution lhs _ c =>
    c.dimensions.Complete lhs.rank ∧ ∀ d rank, d.Complete rank →
      (table.find? "dimension_numbers" = some (.verbatim d.render) ↔ d = c.dimensions)
  | iota _ axis => table.Holds "iota_dimension" index axis
  | _ => True

/-- What a statement records of the dimension numbers of a convolution. -/
theorem find?_dimensionNumbers (lhs rhs : Shape) (c : ConvolutionConfiguration) :
    (AttributeTable.ofList (convolution lhs rhs c : Operation Shape κ).attributes).find?
      "dimension_numbers" = some (.verbatim c.dimensions.render) := by
  rfl

/-- The attributes of an operation that inference accepts hold its axes. -/
theorem recordsAxes_explicit {o : Operation Shape Inference.Signature} {outputs : List Shape}
    (h : o.infer = .ok outputs) :
    (o.explicit outputs).RecordsAxes (.ofList (o.explicit outputs).attributes) := by
  have hverbatim : Function.Injective Attribute.verbatim := fun _ _ => Attribute.verbatim.inj
  cases o with
  | broadcastInDim => exact .of_injective Attribute.ofList_injective rfl
  | transpose => exact .of_injective Attribute.ofList_injective rfl
  | concatenate => exact .of_injective index_injective rfl
  | gather => exact .of_injective (hverbatim.comp GatherDimensions.render_injective) rfl
  | scatter => exact .of_injective (hverbatim.comp ScatterDimensions.render_injective) rfl
  | reduce => exact .of_injective Attribute.ofList_injective rfl
  | dotGeneral => exact .of_injective (hverbatim.comp DotDimensions.render_injective) rfl
  | convolution lhs rhs c =>
    obtain ⟨s, hs, rfl⟩ := one_eq_ok.mp (infer_eq_ok.mp h)
    have hcomplete := Inference.complete_of_convolution hs
    refine ⟨hcomplete, fun d rank hd => ?_⟩
    rw [explicit, find?_dimensionNumbers, Option.some.injEq, Attribute.verbatim.injEq]
    constructor
    · intro htext
      exact (ConvolutionDimensions.render_injective hcomplete hd htext).symm
    · rintro rfl
      rfl
  | iota => exact .of_injective index_injective rfl
  | _ => exact True.intro

theorem explicit_kind (o : Operation Shape κ) (outputs : List Shape) :
    (o.explicit outputs).kind = o.kind := by
  cases o <;> rfl

theorem explicit_operands (o : Operation Shape κ) (outputs : List Shape) :
    (o.explicit outputs).operands = o.operands := by
  cases o <;> rfl

end Operation

namespace Program

/-- The statement holds the operation on the shapes of its operands.  Its attributes hold the axes,
which are in range, and give the same results. -/
structure Records (p : Program) (s : Statement) (o : Operation Shape Inference.Signature)
    (results : List Shape) : Prop where
  op : s.op = o.kind
  operands : s.inputs.map p.shape? = o.operands.map some
  attributes : s.attributes = .ofList o.attributes
  axes : o.RecordsAxes s.attributes
  outputs : s.outputs.map p.shape? = results.map some
  axesInRange : o.AxesInRange results
  infer : o.infer = .ok results

variable {p q : Program} {id : FunctionId} {f : Function}

theorem Extends.map_shape?_eq (h : p.Extends q) {values : List Value} {shapes : List Shape}
    (hvalues : values.map p.shape? = shapes.map some) :
    values.map q.shape? = shapes.map some :=
  Function.map_shape?_mono (fun _ _ => h.shape?_eq) hvalues (by simp)

theorem Records.mono {s : Statement} {o : Operation Shape Inference.Signature}
    {results : List Shape} (h : p.Records s o results) (hq : p.Extends q) :
    q.Records s o results where
  op := h.op
  operands := hq.map_shape?_eq h.operands
  attributes := h.attributes
  axes := h.axes
  outputs := hq.map_shape?_eq h.outputs
  axesInRange := h.axesInRange
  infer := h.infer

/-- The outputs have the shapes of the results in order. -/
theorem Records.shape?_output {s : Statement} {o : Operation Shape Inference.Signature}
    {results : List Shape} (h : p.Records s o results) {i : Nat} {v : Value}
    (hv : s.outputs[i]? = some v) : p.shape? v = results[i]? := by
  have hshape := congrArg (·[i]?) h.outputs
  rw [List.getElem?_map, List.getElem?_map, hv, Option.map_some] at hshape
  cases hresult : results[i]? with
  | none => simp [hresult] at hshape
  | some shape => simpa [hresult] using hshape

theorem shapes_eq_of_shapeOf {values : List Value} {shapes expected : List Shape}
    (h : values.mapM (p.shapeOf id) = .ok shapes)
    (hvalues : values.map p.shape? = expected.map some) : shapes = expected := by
  apply List.map_injective_iff.mpr fun _ _ => Option.some.inj
  rw [← map_shape?_of_shapeOf h, hvalues]

theorem shape?_withOperation (hf : p.function? id = some f) (o : Operation Value FunctionId)
    (shaped : Operation Shape Inference.Signature) (outputs : List Shape) (i : Nat) :
    (p.withOperation id o shaped outputs).shape? ⟨id, f.values.length + i⟩ = outputs[i]? := by
  simp only [shape?, valueData?, function?_withOperation hf, hf, Option.map_some, Option.bind_some,
    if_true]
  rw [List.getElem?_append_right (Nat.le_add_right _ _), Nat.add_sub_cancel_left, numberedData,
    List.getElem?_map, List.getElem?_zipIdx, Option.map_map, Option.map_map]
  cases outputs[i]? <;> rfl

/-- The new values have the shapes of the results. -/
theorem map_shape?_withOperation (hf : p.function? id = some f) (o : Operation Value FunctionId)
    (shaped : Operation Shape Inference.Signature) (outputs : List Shape) :
    (consecutiveValues id f.values.length outputs.length).map
      (p.withOperation id o shaped outputs).shape? = outputs.map some := by
  apply List.ext_getElem?
  intro i
  rw [consecutiveValues, List.map_map, List.getElem?_map, List.getElem?_map]
  rcases Nat.lt_or_ge i outputs.length with hi | hi
  · rw [List.getElem?_range hi, Option.map_some, Function.comp_apply,
      shape?_withOperation hf o shaped outputs i, List.getElem?_eq_getElem hi, Option.map_some]
  · rw [List.getElem?_eq_none (by simpa using hi), List.getElem?_eq_none hi]
    rfl

end Program

namespace Builder

open Program

variable {p q : Program} {id : FunctionId}

/-- Whatever becomes of the call, the program has only grown. -/
theorem AllOrNothing.extends {α : Type} {b : Builder α} (h : b.AllOrNothing)
    {result : Except BuildError α} (hrun : b.run p = (result, q)) : p.Extends q := by
  rcases h p with ⟨e, he⟩ | ⟨a, r, hr, hsteps⟩
  · obtain ⟨_, rfl⟩ := Prod.mk.inj (hrun.symm.trans he)
    exact .refl q
  · obtain ⟨_, rfl⟩ := Prod.mk.inj (hrun.symm.trans hr)
    exact hsteps.extends

/-- What is appended records the operation with its axes counted from the front. -/
theorem run_append_records {o : Operation Value FunctionId} {values : List Value}
    (ho : o.isCollective = false) (h : (append id o).run p = (.ok values, q)) :
    ∃ shaped outputs s, o.traverse (p.shapeOf id) (p.closureSignature id) = .ok shaped ∧
      shaped.infer = .ok outputs ∧ q.body id = p.body id ++ [s] ∧ s.inputs = o.operands ∧
      s.outputs = values ∧ q.Records s (shaped.explicit outputs) outputs := by
  obtain ⟨f, shaped, outputs, hf, _, hresolve, rfl, rfl⟩ := run_append_eq_ok.mp h
  obtain ⟨_, htraverse, hinfer⟩ := resolve_eq_ok.mp hresolve
  have hcollective : shaped.isCollective = false := by
    rwa [Operation.isCollective, Operation.traverse_kind htraverse]
  obtain ⟨hexplicit, hrange⟩ := Operation.infer_explicit hcollective hinfer
  have hextends : p.Extends (p.withOperation id o shaped outputs) :=
    (append_allOrNothing id o).extends h
  have hbody := body_withOperation hf o shaped outputs id
  rw [if_pos rfl, channelAttributes, ho, if_neg Bool.false_ne_true, List.append_nil] at hbody
  refine ⟨shaped, outputs, _, htraverse, hinfer, hbody, rfl, rfl, ?_⟩
  constructor
  · rw [Operation.explicit_kind, Operation.traverse_kind htraverse]
    rfl
  · rw [Operation.explicit_operands]
    exact hextends.map_shape?_eq (map_shape?_of_shapeOf (Operation.traverse_operands htraverse))
  · rfl
  · exact Operation.recordsAxes_explicit hinfer
  · exact map_shape?_withOperation hf o shaped outputs
  · exact hrange
  · exact hexplicit

/-! ## The statements of a search -/

theorem appendSingle_extends {o : Operation Value FunctionId} {v : Value}
    (h : (appendSingle id o).run p = (.ok v, q)) : p.Extends q := by
  obtain ⟨values, happend, _⟩ := run_appendSingle h
  exact (append_allOrNothing id o).extends happend

/-- Filling a new closure of a search extends the program. -/
theorem fillBetterPair_extends {e : Extremum} {t positionType : ElementType} {role : Role}
    (ht : t.isComplex = false) (hview : p.view? id = some ⟨role, [], [], none, false⟩)
    (h : (fillBetterPair id e t positionType).run p = (.ok (), q)) : p.Extends q := by
  obtain ⟨r, hfill, _⟩ := fillBetterPair_turns ht e positionType role p hview
  obtain ⟨_, rfl⟩ := Prod.mk.inj (h.symm.trans hfill.1)
  exact hfill.2.extends

/-- A statement with one output records its operation. -/
theorem run_appendSingle_records {o : Operation Value FunctionId} {v : Value}
    (ho : o.isCollective = false) (h : (appendSingle id o).run p = (.ok v, q)) :
    ∃ shaped outputs s, o.traverse (p.shapeOf id) (p.closureSignature id) = .ok shaped ∧
      shaped.infer = .ok outputs ∧ q.body id = p.body id ++ [s] ∧
      q.shape? v = outputs[0]? ∧ q.Records s (shaped.explicit outputs) outputs := by
  obtain ⟨values, happend, hv⟩ := run_appendSingle h
  obtain ⟨shaped, outputs, s, htraverse, hinfer, hbody, _, rfl, hs⟩ := run_append_records ho happend
  exact ⟨shaped, outputs, s, htraverse, hinfer, hbody, hs.shape?_output hv, hs⟩

end Builder

namespace Program

/-- The statements of a search on an operand of the shape, along an axis that counts from the
front: positions are counted along the axis, and the reduction over the axis starts from two
constants and puts out the positions it has found. -/
structure RecordsSearch (q : Program) (statements : List Statement) (shape : Shape) (axis : Int)
    (positionType : ElementType) (v : Value) (result : Shape) : Prop where
  axisInRange : Inference.InRange [axis] shape.rank
  infer : Inference.argMinMax shape axis positionType = .ok result
  statements : ∃ positions worst zero reduction worstLiteral zeroLiteral signature results,
    statements = [positions, worst, zero, reduction] ∧
    q.Records positions (.iota (shape.withElementType positionType) axis)
      [shape.withElementType positionType] ∧
    q.Records worst (.constant worstLiteral) [worstLiteral.shape] ∧
    q.Records zero (.constant zeroLiteral) [zeroLiteral.shape] ∧
    q.Records reduction (.reduce [shape, shape.withElementType positionType]
      [worstLiteral.shape, zeroLiteral.shape] [axis] signature) results ∧
    reduction.outputs[1]? = some v
  result : q.shape? v = some result

end Program

namespace Builder

open Program Inference

variable {p q : Program} {id : FunctionId} {v : Value}

theorem run_iota_records {s : Shape} {a : Nat} {positionType : ElementType}
    (hs : s.isScalar = false) (hinteger : positionType.isInteger = true) (ha : a < s.rank)
    (h : (appendSingle id (.iota (s.withElementType positionType) a)).run p = (.ok v, q)) :
    ∃ t, q.body id = p.body id ++ [t] ∧ q.shape? v = some (s.withElementType positionType) ∧
      q.Records t (.iota (s.withElementType positionType) a) [s.withElementType positionType] := by
  obtain ⟨shaped, outputs, t, htraverse, hinfer, hbody, hshape, ht⟩ :=
    run_appendSingle_records rfl h
  obtain rfl : Operation.iota (s.withElementType positionType) (a : Int) = shaped := by
    simpa [Operation.traverse] using htraverse
  rw [Operation.infer_eq_ok, Operation.outputs, iota_positions hs hinteger ha] at hinfer
  obtain rfl : [s.withElementType positionType] = outputs := by
    simpa [Operation.one, Except.map] using hinfer
  refine ⟨t, hbody, hshape, ?_⟩
  rwa [Operation.explicit, fromFront_natCast] at ht

theorem run_constant_records {literal : Literal}
    (h : (appendSingle id (.constant literal)).run p = (.ok v, q)) :
    ∃ t, q.body id = p.body id ++ [t] ∧ q.shape? v = some literal.shape ∧
      q.Records t (.constant literal) [literal.shape] := by
  obtain ⟨shaped, outputs, t, htraverse, hinfer, hbody, hshape, ht⟩ :=
    run_appendSingle_records rfl h
  obtain rfl : Operation.constant literal = shaped := by
    simpa [Operation.traverse] using htraverse
  obtain rfl : [literal.shape] = outputs := by
    simpa [Operation.infer_eq_ok, Operation.outputs] using hinfer
  exact ⟨t, hbody, hshape, ht⟩

/-- The reduction of the elements with their positions puts out the positions second. -/
theorem run_reduce_records {s : Shape} {a : Nat} {positionType : ElementType}
    {operand positions worst zero : Value} {worstShape zeroShape : Shape} {body : FunctionId}
    {values : List Value} (ha : a < s.rank) (hoperand : p.shape? operand = some s)
    (hpositions : p.shape? positions = some (s.withElementType positionType))
    (hworst : p.shape? worst = some worstShape) (hzero : p.shape? zero = some zeroShape)
    (h : (append id (.reduce [operand, positions] [worst, zero] [(a : Int)] body)).run p =
      (.ok values, q)) :
    ∃ t signature results, q.body id = p.body id ++ [t] ∧ t.outputs = values ∧
      q.Records t (.reduce [s, s.withElementType positionType] [worstShape, zeroShape] [(a : Int)]
        signature) results ∧
      results[1]? = some (.of positionType (s.dimensions.eraseIdx a)) := by
  obtain ⟨shaped, results, t, htraverse, hinfer, hbody, _, rfl, ht⟩ := run_append_records rfl h
  simp only [Operation.traverse, bind_eq_ok, pure_eq_ok, Except.ok.injEq] at htraverse
  obtain ⟨inputs, hinputs, initials, hinitials, signature, _, rfl⟩ := htraverse
  obtain rfl : inputs = [s, s.withElementType positionType] :=
    shapes_eq_of_shapeOf hinputs (by simp [hoperand, hpositions])
  obtain rfl : initials = [worstShape, zeroShape] :=
    shapes_eq_of_shapeOf hinitials (by simp [hworst, hzero])
  refine ⟨t, signature, results, hbody, rfl, ?_, ?_⟩
  · simpa [Operation.explicit] using ht
  · obtain ⟨types, as, htypes, has, rfl⟩ := reduce_outputs (Operation.infer_eq_ok.mp hinfer)
    obtain rfl : [a] = as := by
      rw [normalizeAxes_natCast ha] at has
      exact Except.ok.inj has
    rw [extentsExcept_singleton]
    obtain ⟨elementType, _, _, hrest, rfl⟩ := List.forall₂_cons_left_iff.mp (mapM_eq_ok.mp htypes)
    obtain ⟨found, _, hfound, _, rfl⟩ := List.forall₂_cons_left_iff.mp hrest
    obtain rfl : positionType = found := by
      simpa [Inference.elementType, Shape.withElementType] using hfound
    rfl

/-- A search that succeeds is recorded along its axis counted from the front. -/
theorem run_argExtremum_records {e : Extremum} {operand : Value} {axis : Int}
    {positionType : ElementType}
    (h : (argExtremum id e operand axis positionType).run p = (.ok v, q)) :
    ∃ shape result statements, p.shapeOf id operand = .ok shape ∧
      argMinMax shape axis positionType = .ok result ∧ q.body id = p.body id ++ statements ∧
      q.RecordsSearch statements shape (fromFront axis shape.rank) positionType v result := by
  obtain ⟨search, positions, worst, zero, body, outputs, q₁, q₂, q₃, q₄, q₅, hsearch, h₁, h₂, h₃,
    h₄, h₅, h₆, hv⟩ := run_argExtremum h
  obtain ⟨_, hoperand, _, hcomplex, _, _, result, hresult⟩ := checkSearch_eq_ok hsearch
  obtain ⟨hscalar, hinteger, a, ha, hlt, rfl⟩ := argMinMax_eq_ok hresult
  obtain ⟨hexplicit, hrange⟩ := argMinMax_fromFront hresult
  rw [ha] at h₁ h₆
  obtain ⟨s₁, hbody₁, hpositions, hs₁⟩ := run_iota_records hscalar hinteger hlt h₁
  obtain ⟨s₂, hbody₂, hworst, hs₂⟩ := run_constant_records h₂
  obtain ⟨s₃, hbody₃, hzero, hs₃⟩ := run_constant_records h₃
  have hclosure : id ≠ body ∧
      q₄.view? body = some ⟨.closure id (q₃.root id), [], [], none, false⟩ := by
    obtain ⟨⟨f, hf⟩, rfl, rfl⟩ := run_closure_eq_ok.mp h₄
    refine ⟨Nat.ne_of_lt (lt_of_function? (openFunction_eq_ok.mp hf).1), ?_⟩
    rw [view?_addFunction, if_pos rfl]
  -- a program on the way extends to those that come later
  have hext₅ : q₄.Extends q₅ := fillBetterPair_extends hcomplex hclosure.2 h₅
  have hext₄ : q₃.Extends q₅ := ((closure_allOrNothing id).extends h₄).trans hext₅
  have hext₃ : q₂.Extends q₅ := (appendSingle_extends h₃).trans hext₄
  have hext₂ : q₁.Extends q₅ := (appendSingle_extends h₂).trans hext₃
  have hext₁ : p.Extends q₅ := (appendSingle_extends h₁).trans hext₂
  have hext₆ : q₅.Extends q := (append_allOrNothing id _).extends h₆
  have hoperand₅ := hext₁.shape?_eq (shape?_eq_of_shapeOf hoperand)
  obtain ⟨s₄, signature, results, hbody₆, rfl, hs₄, hpicked⟩ :=
    run_reduce_records hlt hoperand₅ (hext₂.shape?_eq hpositions) (hext₃.shape?_eq hworst)
      (hext₄.shape?_eq hzero) h₆
  have hstatements : q.body id = p.body id ++ [s₁, s₂, s₃, s₄] := by
    rw [hbody₆, (fillBetterPair_leaves e _ _ hclosure.1).run_eq h₅,
      (closure_leaves id id).run_eq h₄, hbody₃, hbody₂, hbody₁]
    simp
  refine ⟨search.shape, _, _, hoperand, hresult, hstatements, hrange, hexplicit, ?_, ?_⟩
  · rw [ha]
    exact ⟨s₁, s₂, s₃, s₄, _, _, signature, results, rfl, hs₁.mono (hext₂.trans hext₆),
      hs₂.mono (hext₃.trans hext₆), hs₃.mono (hext₄.trans hext₆), hs₄, hv⟩
  · exact (hs₄.shape?_output hv).trans hpicked

/-- Whatever axes a call has been given, those that it records can be read off the attributes,
are in range and give the results that the call has given.  An operation adds one statement, a
search adds four. -/
theorem axes_recorded (p : Program) (id : FunctionId) :
    (∀ o values q, o.isCollective = false → (append id o).run p = (.ok values, q) →
      ∃ shaped outputs s, o.traverse (p.shapeOf id) (p.closureSignature id) = .ok shaped ∧
        shaped.infer = .ok outputs ∧ q.body id = p.body id ++ [s] ∧ s.inputs = o.operands ∧
        s.outputs = values ∧ q.Records s (shaped.explicit outputs) outputs) ∧
      ∀ e operand axis positionType v q,
        (argExtremum id e operand axis positionType).run p = (.ok v, q) →
          ∃ shape result statements, p.shapeOf id operand = .ok shape ∧
            argMinMax shape axis positionType = .ok result ∧
            q.body id = p.body id ++ statements ∧
            q.RecordsSearch statements shape (fromFront axis shape.rank) positionType v result := by
  constructor
  · intro o values q ho h
    exact run_append_records ho h
  · intro e operand axis positionType v q h
    exact run_argExtremum_records h

/-- A permutation from the end is recorded from the front. -/
example :
    let p := Program.ofCalls "example" [.function "main" [.of (.real .f32) [2, 3]],
      .append 0 (.transpose ⟨0, 0⟩ [-1, -2])]
    (p.body 0).map Statement.attributes = [.ofList [("permutation", .ofList [1, 0])]] ∧
      p.shape? ⟨0, 1⟩ = some (.of (.real .f32) [3, 2]) := by
  decide

/-! ## Dimension numbers -/

/-- A convolution that is appended is one that inference accepts, and its statement holds the
dimension numbers with all axes counted from the front. -/
theorem run_append_convolution {x y : Value} {c : ConvolutionConfiguration} {values : List Value}
    (h : (append id (.convolution x y c)).run p = (.ok values, q)) :
    ∃ lhs rhs s statement, p.shapeOf id x = .ok lhs ∧ p.shapeOf id y = .ok rhs ∧
      convolution lhs rhs c = .ok s ∧ q.body id = p.body id ++ [statement] ∧
      statement.attributes.find? "dimension_numbers" =
        some (.verbatim (c.dimensions.fromFront lhs.rank).render) := by
  obtain ⟨shaped, outputs, statement, htraverse, hinfer, hbody, _, _, hrecords⟩ :=
    run_append_records rfl h
  simp only [Operation.traverse, bind_eq_ok, pure_eq_ok, Except.ok.injEq] at htraverse
  obtain ⟨lhs, hlhs, rhs, hrhs, rfl⟩ := htraverse
  obtain ⟨s, hs, rfl⟩ := Operation.one_eq_ok.mp (Operation.infer_eq_ok.mp hinfer)
  refine ⟨lhs, rhs, s, statement, hlhs, hrhs, hs, hbody, ?_⟩
  rw [hrecords.attributes]
  exact Operation.find?_dimensionNumbers lhs rhs _

end Builder

/-- Dimension numbers can be read off their texts: those of dot products, gathers and scatters
always, and those of a convolution, as they are recorded, if inference accepts it.  The recorded
text of a convolution has no axis without a letter.  Inference accepts every convolution that
is appended, and it is this text that its statement holds. -/
theorem dimensionNumbers_readable :
    Function.Injective DotDimensions.render ∧ Function.Injective GatherDimensions.render ∧
    Function.Injective ScatterDimensions.render ∧
    (∀ {lhs rhs s : Shape} {c : ConvolutionConfiguration},
      Inference.convolution lhs rhs c = .ok s →
      ∃ text,
        (AttributeTable.ofList ((Operation.convolution lhs rhs c : Operation Shape
          Inference.Signature).explicit [s]).attributes).find? "dimension_numbers" =
            some (.verbatim text) ∧
        text = (c.dimensions.fromFront lhs.rank).render ∧
        '?' ∉ text.toList ∧
        ConvolutionDimensions.LaidOut (lhs.rank - 2) text ∧
        ∀ {lhs' rhs' s' : Shape} {c' : ConvolutionConfiguration},
          Inference.convolution lhs' rhs' c' = .ok s' →
          text = (c'.dimensions.fromFront lhs'.rank).render →
          c.dimensions.fromFront lhs.rank = c'.dimensions.fromFront lhs'.rank) ∧
    ∀ {p q : Program} {id : FunctionId} {x y : Value} {c : ConvolutionConfiguration}
      {values : List Value},
      (Builder.append id (.convolution x y c)).run p = (.ok values, q) →
      ∃ lhs rhs s statement, p.shapeOf id x = .ok lhs ∧ p.shapeOf id y = .ok rhs ∧
        Inference.convolution lhs rhs c = .ok s ∧ q.body id = p.body id ++ [statement] ∧
        statement.attributes.find? "dimension_numbers" =
          some (.verbatim (c.dimensions.fromFront lhs.rank).render) := by
  refine ⟨DotDimensions.render_injective, GatherDimensions.render_injective,
    ScatterDimensions.render_injective, fun {lhs rhs s c} h => ?_, Builder.run_append_convolution⟩
  have hcomplete := Inference.complete_of_convolution h
  refine ⟨_, Operation.find?_dimensionNumbers lhs rhs _, rfl,
    ConvolutionDimensions.question_notMem_render hcomplete,
    ConvolutionDimensions.laidOut_render hcomplete, fun h' htext => ?_⟩
  exact ConvolutionDimensions.render_injective hcomplete
    (Inference.complete_of_convolution h') htext

theorem dimensionNumbers_readable_images :
    let lhs : Shape := .of (.real .f32) [1, 8, 8, 3]
    let rhs : Shape := .of (.real .f32) [3, 3, 3, 16]
    let text := "#stablehlo.conv<[b, 0, 1, f]x[0, 1, i, o]->[b, 0, 1, f]>"
    let p := Program.ofCalls "example" [.function "main" [lhs, rhs]]
    let append := Builder.append 0 (.convolution ⟨0, 0⟩ ⟨0, 1⟩ (.unit imageDimensions))
    Inference.convolution lhs rhs (.unit imageDimensions) =
        .ok (.of (.real .f32) [1, 6, 6, 16]) ∧
      (imageDimensions.fromFront 4).render = text ∧
      '?' ∉ text.toList ∧ ConvolutionDimensions.LaidOut 2 text ∧
      (imageDimensions.fromFront 4 = (ConvolutionDimensions.channelsLast 2).fromFront 4) ∧
      ∃ q statement, append.run p = (.ok [⟨0, 2⟩], q) ∧ q.body 0 = [statement] ∧
        statement.attributes.find? "dimension_numbers" = some (.verbatim text) := by
  intro lhs rhs text p append
  have haccepted : Inference.convolution lhs rhs (.unit imageDimensions) =
      .ok (.of (.real .f32) [1, 6, 6, 16]) := by decide
  have hlast : Inference.convolution lhs rhs (.unit (.channelsLast 2)) =
      .ok (.of (.real .f32) [1, 6, 6, 16]) := by decide
  have hrender : (imageDimensions.fromFront 4).render = text := by decide
  have hrun : append.run p = (.ok [⟨0, 2⟩], (append.run p).2) := by decide
  obtain ⟨other, _, hother, hquestion, hlaid, hinjective⟩ :=
    dimensionNumbers_readable.2.2.2.1 haccepted
  obtain rfl : other = text := hother.trans hrender
  obtain ⟨lhs', _, _, statement, hlhs, _, _, hbody, hstatement⟩ :=
    dimensionNumbers_readable.2.2.2.2 hrun
  obtain rfl : lhs = lhs' := Except.ok.inj hlhs
  exact ⟨haccepted, hrender, hquestion, hlaid, hinjective hlast (by decide), _, statement, hrun,
    hbody, hstatement.trans (congrArg (some ∘ Attribute.verbatim) hrender)⟩

end TensorProgram
