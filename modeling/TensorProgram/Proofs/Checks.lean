import Mathlib.Data.List.Forall2
import Mathlib.Data.List.Nodup
import Mathlib.Tactic.SplitIfs
import TensorProgram.Program.Append

/-!
# When the checks of a builder succeed

Each check of `TensorProgram.Program.Builder` is taken apart into what it asks of the
program: `openFunction_eq_ok`, `shapeOf_eq_ok` and `closureSignature_eq_ok`.

`Operation.traverse_eq_ok` says that `Operation.traverse` visits exactly the operands and
the computation that a statement lists.  With it `checkStatement_of_resolve` follows: the
last check before a statement is recorded asks for nothing that was not known before.
-/

namespace TensorProgram

/-! ## Chains of checks -/

theorem bind_eq_ok {ε α β : Type} {x : Except ε α} {f : α → Except ε β} {b : β} :
    (x >>= f) = .ok b ↔ ∃ a, x = .ok a ∧ f a = .ok b := by
  cases x with
  | error e => simp [bind, Except.bind]
  | ok a => simp [bind, Except.bind]

theorem mapError_eq_ok {ε ε' α : Type} {x : Except ε α} {f : ε → ε'} {a : α} :
    x.mapError f = .ok a ↔ x = .ok a := by
  cases x with
  | error e => simp [Except.mapError]
  | ok b => simp [Except.mapError]

@[simp] theorem ok_bind {ε α β : Type} (a : α) (f : α → Except ε β) :
    ((.ok a : Except ε α) >>= f) = f a := rfl

@[simp] theorem error_bind {ε α β : Type} (e : ε) (f : α → Except ε β) :
    ((.error e : Except ε α) >>= f) = .error e := rfl

@[simp] theorem pure_eq_ok {ε α : Type} (a : α) : (pure a : Except ε α) = .ok a := rfl

/-- Partners for all entries are found one by one. -/
theorem exists_forall₂_iff {α β : Type} {R : α → β → Prop} {xs : List α} :
    (∃ ys, List.Forall₂ R xs ys) ↔ ∀ x ∈ xs, ∃ y, R x y := by
  induction xs with
  | nil => simp
  | cons x xs ih =>
    simp only [List.forall₂_cons_left_iff, List.forall_mem_cons, ← ih]
    constructor
    · intro h
      obtain ⟨_, y, ys, hy, hys, rfl⟩ := h
      exact ⟨⟨y, hy⟩, ys, hys⟩
    · intro h
      obtain ⟨⟨y, hy⟩, ys, hys⟩ := h
      exact ⟨y :: ys, y, ys, hy, hys, rfl⟩

theorem exists_of_mem_left {α β : Type} {R : α → β → Prop} {xs : List α} {ys : List β}
    (h : List.Forall₂ R xs ys) {x : α} (hx : x ∈ xs) : ∃ y ∈ ys, R x y := by
  induction h with
  | nil => cases hx
  | cons hxy _ ih =>
    rcases List.mem_cons.mp hx with rfl | hx
    · exact ⟨_, List.mem_cons_self, hxy⟩
    · obtain ⟨y, hy, hR⟩ := ih hx
      exact ⟨y, List.mem_cons_of_mem _ hy, hR⟩

/-- What is known of the entries of two pairs of lists is known of the entries of the ends. -/
theorem forall₂_trans {α β γ : Type} {R : α → β → Prop} {S : β → γ → Prop} {T : α → γ → Prop}
    (h : ∀ x y z, R x y → S y z → T x z) {xs : List α} {ys : List β} {zs : List γ}
    (hxy : List.Forall₂ R xs ys) (hyz : List.Forall₂ S ys zs) : List.Forall₂ T xs zs := by
  induction hxy generalizing zs with
  | nil =>
    rw [List.forall₂_nil_left_iff.mp hyz]
    exact .nil
  | cons hx _ ih =>
    obtain ⟨z, zs, hz, hrest, rfl⟩ := List.forall₂_cons_left_iff.mp hyz
    exact .cons (h _ _ _ hx hz) (ih hrest)

/-- A list of checks succeeds when each of them does. -/
theorem mapM_eq_ok {ε α β : Type} {f : α → Except ε β} {xs : List α} {ys : List β} :
    xs.mapM f = .ok ys ↔ List.Forall₂ (fun x y => f x = .ok y) xs ys := by
  induction xs generalizing ys with
  | nil =>
    cases ys with
    | nil => simp
    | cons y ys => simp
  | cons x xs ih =>
    rw [List.mapM_cons, bind_eq_ok]
    cases ys with
    | nil => simp [bind_eq_ok]
    | cons y ys => simp [bind_eq_ok, ih]

/-- A list of checks may be replaced by checks that succeed with the same results. -/
theorem mapM_mono {ε α β : Type} {f g : α → Except ε β} {xs : List α} {ys : List β}
    (h : xs.mapM f = .ok ys) (hfg : ∀ x ∈ xs, ∀ y, f x = .ok y → g x = .ok y) :
    xs.mapM g = .ok ys := by
  induction mapM_eq_ok.mp h with
  | nil => rfl
  | cons hxy hrest ih =>
    rw [List.forall_mem_cons] at hfg
    rw [List.mapM_cons, hfg.1 _ hxy, ok_bind, ih (mapM_eq_ok.mpr hrest) hfg.2]
    rfl

/-- Each check of a list that succeeds succeeds. -/
theorem exists_ok_of_mem {ε α β : Type} {f : α → Except ε β} {xs : List α} {ys : List β}
    (h : xs.mapM f = .ok ys) {x : α} (hx : x ∈ xs) : ∃ y, f x = .ok y := by
  induction mapM_eq_ok.mp h with
  | nil => cases hx
  | cons hxy hrest ih =>
    rcases List.mem_cons.mp hx with rfl | hx
    · exact ⟨_, hxy⟩
    · exact ih (mapM_eq_ok.mpr hrest) hx

/-- What holds of the results of each check holds of all results. -/
theorem forall_of_mapM {ε α β : Type} {P : β → Prop} {f : α → Except ε β} {xs : List α}
    {ys : List β} (h : xs.mapM f = .ok ys) (hP : ∀ x ∈ xs, ∀ y, f x = .ok y → P y) :
    ∀ y ∈ ys, P y := by
  induction mapM_eq_ok.mp h with
  | nil => exact fun y hy => nomatch hy
  | cons hxy hrest ih =>
    rw [List.forall_mem_cons] at hP ⊢
    exact ⟨hP.1 _ hxy, ih (mapM_eq_ok.mpr hrest) hP.2⟩

/-- A list of checks without results succeeds when each of them does. -/
theorem forM_eq_ok {ε α : Type} {f : α → Except ε Unit} {xs : List α} :
    xs.forM f = .ok () ↔ ∀ x ∈ xs, f x = .ok () := by
  induction xs with
  | nil => exact ⟨fun _ x hx => (nomatch hx), fun _ => rfl⟩
  | cons x xs ih =>
    change (f x >>= fun _ => xs.forM f) = _ ↔ _
    rw [bind_eq_ok, List.forall_mem_cons]
    constructor
    · intro h
      obtain ⟨_, hx, hxs⟩ := h
      exact ⟨hx, ih.mp hxs⟩
    · intro h
      exact ⟨(), h.1, ih.mpr h.2⟩

/-- The first entry that fails decides a list of checks without results. -/
theorem forM_eq_find? {ε α : Type} {f : α → Except ε Unit} {bad : α → Bool} {xs : List α}
    (hf : ∀ x ∈ xs, f x = .ok () ↔ bad x = false) :
    xs.forM f = (xs.find? bad).elim (.ok ()) f := by
  induction xs with
  | nil => rfl
  | cons x xs ih =>
    change (f x >>= fun _ => xs.forM f) = _
    rw [List.find?_cons]
    cases hbad : bad x with
    | false =>
      rw [(hf x List.mem_cons_self).mpr hbad, ok_bind]
      exact ih fun y hy => hf y (List.mem_cons_of_mem x hy)
    | true =>
      cases hx : f x with
      | error e => simp [hx]
      | ok u =>
        have := (hf x List.mem_cons_self).mp hx
        rw [hbad] at this
        cases this

/-- What every step of a fold keeps holds of its result. -/
theorem foldlM_invariant {ε α β : Type} {P : β → Prop} {f : β → α → Except ε β}
    (hf : ∀ b x c, P b → f b x = .ok c → P c) {xs : List α} {b c : β}
    (h : xs.foldlM f b = .ok c) (hb : P b) : P c := by
  induction xs generalizing b with
  | nil =>
    obtain rfl : b = c := by simpa using h
    exact hb
  | cons x xs ih =>
    obtain ⟨b', hstep, hrest⟩ := bind_eq_ok.mp h
    exact ih hrest (hf b x b' hb hstep)

/-- Entries are collected as long as each is acceptable and was not there before. -/
theorem foldlM_distinct {ε α β : Type} {accepts : α → β → Prop}
    {add : List β → α → Except ε (List β)}
    (hadd : ∀ seen x found, add seen x = .ok found ↔
      ∃ b, accepts x b ∧ b ∉ seen ∧ found = b :: seen)
    {xs : List α} {seen found : List β} (hseen : seen.Nodup) :
    xs.foldlM add seen = .ok found ↔
      ∃ new, List.Forall₂ accepts xs new ∧ (new.reverse ++ seen).Nodup ∧
        found = new.reverse ++ seen := by
  induction xs generalizing seen with
  | nil =>
    rw [List.foldlM_nil, pure_eq_ok, Except.ok.injEq]
    constructor
    · rintro rfl
      exact ⟨[], .nil, hseen, rfl⟩
    · rintro ⟨new, hnew, _, rfl⟩
      rw [List.forall₂_nil_left_iff.mp hnew]
      rfl
  | cons x xs ih =>
    rw [List.foldlM_cons, bind_eq_ok]
    constructor
    · rintro ⟨seen', hstep, hrest⟩
      obtain ⟨b, hb, hnew, rfl⟩ := (hadd seen x seen').mp hstep
      obtain ⟨new, hall, hnodup, rfl⟩ := (ih (List.nodup_cons.mpr ⟨hnew, hseen⟩)).mp hrest
      refine ⟨b :: new, .cons hb hall, ?_, ?_⟩
      · simpa using hnodup
      · simp
    · rintro ⟨new, hall, hnodup, rfl⟩
      obtain ⟨b, rest, hb, hrest, rfl⟩ := List.forall₂_cons_left_iff.mp hall
      rw [List.reverse_cons, List.append_assoc, List.singleton_append] at hnodup
      have hcons : (b :: seen).Nodup := (List.nodup_append.mp hnodup).2.1
      refine ⟨b :: seen, (hadd seen x _).mpr ⟨b, hb, (List.nodup_cons.mp hcons).1, rfl⟩, ?_⟩
      exact (ih hcons).mpr ⟨rest, hrest, hnodup, by simp⟩

/-- A collection of the entries themselves succeeds when they are acceptable and different. -/
theorem foldlM_distinct_same {ε α : Type} {acceptable : α → Prop}
    {add : List α → α → Except ε (List α)}
    (hadd : ∀ seen x found, add seen x = .ok found ↔
      ∃ b, (b = x ∧ acceptable x) ∧ b ∉ seen ∧ found = b :: seen) {xs : List α} :
    (∃ found, xs.foldlM add [] = .ok found) ↔ xs.Nodup ∧ ∀ x ∈ xs, acceptable x := by
  have hcollect (found : List α) : xs.foldlM add [] = .ok found ↔ _ :=
    foldlM_distinct hadd List.nodup_nil
  constructor
  · rintro ⟨found, h⟩
    obtain ⟨new, hnew, hnodup, _⟩ := (hcollect found).mp h
    obtain rfl : xs = new := by
      rw [← List.forall₂_eq_eq_eq]
      exact hnew.imp fun _ _ hx => hx.1.symm
    exact ⟨by simpa using hnodup, fun x hx => (List.forall₂_same.mp hnew x hx).2⟩
  · rintro ⟨hnodup, hxs⟩
    exact ⟨_, (hcollect _).mpr
      ⟨xs, List.forall₂_same.mpr fun x hx => ⟨rfl, hxs x hx⟩, by simpa using hnodup, rfl⟩⟩

/-- What each check of a list that succeeds keeps, the list keeps. -/
theorem map_eq_map_of_mapM {ε α β γ : Type} {f : α → Except ε β} {g : α → γ} {k : β → γ}
    {xs : List α} {ys : List β} (h : xs.mapM f = .ok ys)
    (hfg : ∀ x y, f x = .ok y → g x = k y) : xs.map g = ys.map k := by
  induction mapM_eq_ok.mp h with
  | nil => rfl
  | cons hxy hrest ih => rw [List.map_cons, List.map_cons, hfg _ _ hxy, ih (mapM_eq_ok.mpr hrest)]

namespace Program

theorem require_eq_ok {condition : Bool} {otherwise : ProgramError} {u : Unit} :
    require condition otherwise = .ok u ↔ condition = true := by
  cases condition with
  | false => simp [require]
  | true => simp [require]

theorem getFunction_eq_ok {p : Program} {id : FunctionId} {f : Function} :
    p.getFunction id = .ok f ↔ p.function? id = some f := by
  unfold getFunction
  cases p.function? id with
  | none => simp
  | some g => simp

/-- An open function is one that exists and has no outputs yet. -/
theorem openFunction_eq_ok {p : Program} {id : FunctionId} {f : Function} :
    p.openFunction id = .ok f ↔ p.function? id = some f ∧ f.returned? = none := by
  simp only [openFunction, bind_eq_ok, getFunction_eq_ok, require_eq_ok, pure_eq_ok]
  constructor
  · rintro ⟨g, hg, _, hopen, hfg⟩
    obtain rfl : g = f := by simpa using hfg
    exact ⟨hg, by simpa [Function.isReturned] using hopen⟩
  · rintro ⟨hf, hopen⟩
    exact ⟨f, hf, (), by simp [Function.isReturned, hopen], rfl⟩

/-- A value in scope is one of the values that the function owns. -/
theorem shapeOf_eq_ok {p : Program} {id : FunctionId} {v : Value} {s : Shape} :
    p.shapeOf id v = .ok s ↔
      v.function = id ∧ ∃ f data, p.function? id = some f ∧ f.values[v.index]? = some data ∧
        data.shape = s := by
  simp only [shapeOf, bind_eq_ok, getFunction_eq_ok]
  constructor
  · rintro ⟨f, hf, h⟩
    split_ifs at h with hv
    · cases hdata : f.values[v.index]? with
      | none => simp [hdata] at h
      | some data =>
        rw [hdata] at h
        exact ⟨hv, f, data, hf, hdata, by simpa using h⟩
  · rintro ⟨hv, f, data, hf, hdata, hs⟩
    exact ⟨f, hf, by simp [hv, hdata, hs]⟩

theorem shapeOf_eq_ok_iff {p : Program} {id : FunctionId} {f : Function} {v : Value} {s : Shape}
    (hf : p.function? id = some f) :
    p.shapeOf id v = .ok s ↔
      v.function = id ∧ (f.values[v.index]?).map ValueData.shape = some s := by
  rw [shapeOf_eq_ok]
  constructor
  · rintro ⟨hv, g, data, hg, hdata, rfl⟩
    obtain rfl : f = g := by simpa [hf] using hg
    exact ⟨hv, by simp [hdata]⟩
  · rintro ⟨hv, h⟩
    obtain ⟨data, hdata, hs⟩ := Option.map_eq_some_iff.mp h
    exact ⟨hv, f, data, hf, hdata, hs⟩

/-- A closure that is ready: made in the function, returned and not yet in use. -/
theorem closureSignature_eq_ok {p : Program} {id closure : FunctionId}
    {signature : Inference.Signature} :
    p.closureSignature id closure = .ok signature ↔
      (p.function? id).isSome ∧ ∃ c, p.function? closure = some c ∧ c.parent? = some id ∧
        c.isReturned = true ∧ c.consumed = false ∧
        signature = ⟨c.inputs.filterMap p.shape?, c.outputs.map Output.shape⟩ := by
  simp only [closureSignature, bind_eq_ok, getFunction_eq_ok, require_eq_ok, pure_eq_ok]
  constructor
  · rintro ⟨f, hf, c, hc, _, hparent, _, hreturned, _, hconsumed, hs⟩
    exact ⟨by simp [hf], c, hc, by simpa using hparent, hreturned, by simpa using hconsumed,
      by simpa using hs.symm⟩
  · rintro ⟨hf, c, hc, hparent, hreturned, hconsumed, rfl⟩
    obtain ⟨f, hf⟩ := Option.isSome_iff_exists.mp hf
    exact ⟨f, hf, c, hc, (), by simp [hparent], (), hreturned, (), by simp [hconsumed], rfl⟩

end Program

namespace Inference

theorem require_eq_ok {condition : Bool} {otherwise : ShapeError.Cause} {u : Unit} :
    require condition otherwise = .ok u ↔ condition = true := by
  cases condition with
  | false => simp [require]
  | true => simp [require]

theorem entry_eq_ok {α : Type} {xs : List α} {position : Nat} {x : α} :
    entry xs position = .ok x ↔ xs[position]? = some x := by
  unfold entry
  cases xs[position]? with
  | none => simp
  | some y => simp

theorem entry_map {α β : Type} (f : α → β) (xs : List α) (position : Nat) :
    entry (xs.map f) position = f <$> entry xs position := by
  unfold entry
  rw [List.getElem?_map, List.length_map]
  cases xs[position]? <;> rfl

theorem elementType_eq_ok {s : Shape} {t : ElementType} :
    elementType s = .ok t ↔ s.elementType? = some t := by
  unfold elementType
  cases s.elementType? with
  | none => simp
  | some t' => simp

/-- A shape is its element type and its dimensions. -/
theorem of_eq_iff {t : ElementType} {dimensions : List Nat} {s : Shape} :
    Shape.of t dimensions = s ↔ s.elementType? = some t ∧ s.dimensions = dimensions := by
  constructor
  · rintro rfl
    exact ⟨rfl, rfl⟩
  · intro h
    rw [Shape.of, ← h.1, ← h.2]

theorem commonElementType_eq_ok {lhs rhs : Shape} {t : ElementType} :
    commonElementType lhs rhs = .ok t ↔
      lhs.elementType? = some t ∧ rhs.elementType? = some t := by
  simp only [commonElementType, bind_eq_ok, elementType_eq_ok, require_eq_ok, beq_iff_eq,
    pure_eq_ok, Except.ok.injEq]
  constructor
  · intro h
    obtain ⟨_, hlhs, _, hrhs, _, rfl, rfl⟩ := h
    exact ⟨hlhs, hrhs⟩
  · intro h
    exact ⟨t, h.1, t, h.2, (), rfl, rfl⟩

end Inference

/-! ## Operands of an operation -/

namespace Operation

theorem infer_eq_ok {o : Operation Shape Inference.Signature} {outputs : List Shape} :
    o.infer = .ok outputs ↔ o.outputs = .ok outputs :=
  mapError_eq_ok

variable {ω κ ω' κ' ε : Type} {f : ω → Except ε ω'} {g : κ → Except ε κ'}

/-- A traversal that succeeds has replaced the operands one by one. -/
theorem traverse_operands {o : Operation ω κ} {o' : Operation ω' κ'}
    (h : o.traverse f g = .ok o') : o.operands.mapM f = .ok o'.operands := by
  cases o <;> simp only [traverse, bind_eq_ok, pure_eq_ok, Except.ok.injEq] at h
  -- the operands and the computation are looked up one after the other, at most four of them
  all_goals first
    | obtain rfl := h
    | obtain ⟨_, _, rfl⟩ := h
    | obtain ⟨_, _, _, _, rfl⟩ := h
    | obtain ⟨_, _, _, _, _, _, rfl⟩ := h
    | obtain ⟨_, _, _, _, _, _, _, _, rfl⟩ := h
  all_goals simp_all [operands, List.mapM_append, List.mapM_cons]

/-- A traversal that succeeds has replaced the computation. -/
theorem traverse_computation {o : Operation ω κ} {o' : Operation ω' κ'}
    (h : o.traverse f g = .ok o') {label : String} {c : κ}
    (hc : o.computation? = some (label, c)) :
    ∃ c', g c = .ok c' ∧ o'.computation? = some (label, c') := by
  cases o <;> simp only [computation?, reduceCtorEq, Option.some.injEq, Prod.mk.injEq] at hc
  all_goals
    obtain ⟨rfl, rfl⟩ := hc
    simp only [traverse, bind_eq_ok, pure_eq_ok, Except.ok.injEq] at h
  case scatter => obtain ⟨_, _, _, _, _, _, c', hc', rfl⟩ := h; exact ⟨c', hc', rfl⟩
  case reduce => obtain ⟨_, _, _, _, c', hc', rfl⟩ := h; exact ⟨c', hc', rfl⟩
  case reduceWindow => obtain ⟨_, _, _, _, c', hc', rfl⟩ := h; exact ⟨c', hc', rfl⟩
  case allReduce => obtain ⟨_, _, c', hc', rfl⟩ := h; exact ⟨c', hc', rfl⟩

/-- A collective takes operands. -/
theorem takesOperands_of_isCollective {o : Operation ω κ} (h : o.isCollective = true) :
    o.takesOperands = true := by
  cases o with
  | constant literal => exact h
  | iota shape axis => exact h
  | _ => rfl

end Operation

namespace Program

theorem checkStatement_eq_ok {p : Program} {id : FunctionId} {inputs : List Value}
    {closure? : Option ClosureUse} :
    p.checkStatement id inputs closure? = .ok () ↔
      (∃ f, p.openFunction id = .ok f) ∧ (∃ shapes, inputs.mapM (p.shapeOf id) = .ok shapes) ∧
        ∀ use, closure? = some use → ∃ s, p.closureSignature id use.function = .ok s := by
  unfold checkStatement
  cases closure? with
  | none => simp [bind_eq_ok]
  | some use => simp [bind_eq_ok]

/-- An operation is resolved when its operands and its computation are found and its
outputs are inferred. -/
theorem resolve_eq_ok {p : Program} {id : FunctionId} {o : Operation Value FunctionId}
    {shaped : Operation Shape Inference.Signature} {outputs : List Shape} :
    p.resolve id o = .ok (shaped, outputs) ↔
      (∃ f, p.function? id = some f ∧ (o.takesOperands = true → f.returned? = none)) ∧
        o.traverse (p.shapeOf id) (p.closureSignature id) = .ok shaped ∧
        shaped.infer = .ok outputs := by
  unfold resolve
  cases o.takesOperands with
  | true =>
    simp only [if_true, bind_eq_ok, openFunction_eq_ok, mapError_eq_ok, pure_eq_ok,
      Except.ok.injEq, Prod.mk.injEq, forall_const]
    constructor
    · rintro ⟨f, hf, _, htraverse, _, hinfer, rfl, rfl⟩
      exact ⟨⟨f, hf⟩, htraverse, hinfer⟩
    · rintro ⟨⟨f, hf⟩, htraverse, hinfer⟩
      exact ⟨f, hf, shaped, htraverse, outputs, hinfer, rfl, rfl⟩
  | false =>
    simp only [Bool.false_eq_true, if_false, bind_eq_ok, getFunction_eq_ok, mapError_eq_ok,
      pure_eq_ok, Except.ok.injEq, Prod.mk.injEq, false_implies, and_true]
    constructor
    · rintro ⟨f, hf, _, htraverse, _, hinfer, rfl, rfl⟩
      exact ⟨⟨f, hf⟩, htraverse, hinfer⟩
    · rintro ⟨⟨f, hf⟩, htraverse, hinfer⟩
      exact ⟨f, hf, shaped, htraverse, outputs, hinfer, rfl, rfl⟩

/-- Whoever has resolved an operation on an open function can record it. -/
theorem checkStatement_of_resolve {p : Program} {id : FunctionId}
    {o : Operation Value FunctionId} {shaped : Operation Shape Inference.Signature}
    {outputs : List Shape} (h : p.resolve id o = .ok (shaped, outputs)) {f : Function}
    (hopen : p.openFunction id = .ok f) :
    p.checkStatement id o.operands o.closureUse? = .ok () := by
  obtain ⟨_, htraverse, _⟩ := resolve_eq_ok.mp h
  refine checkStatement_eq_ok.mpr ⟨⟨f, hopen⟩, ⟨_, Operation.traverse_operands htraverse⟩, ?_⟩
  rintro use huse
  obtain ⟨⟨label, c⟩, hc, rfl⟩ := Option.map_eq_some_iff.mp huse
  obtain ⟨s, hs, _⟩ := Operation.traverse_computation htraverse hc
  exact ⟨s, hs⟩

end Program

/-- The values of a return have been looked up. -/
theorem Builder.checkReturn_eq_ok {p : Program} {id : FunctionId} {values : List Value}
    {shardings : List (Option Sharding)} {outputs : List Output}
    (h : checkReturn id values shardings p = .ok outputs) :
    ∃ f shapes, p.openFunction id = .ok f ∧ values.mapM (p.shapeOf id) = .ok shapes := by
  simp only [checkReturn, bind_eq_ok] at h
  obtain ⟨f, hf, shapes, hshapes, _⟩ := h
  exact ⟨f, shapes, hf, hshapes⟩

end TensorProgram
