import TensorProgram.Proofs.BetterPair

/-!
# The position that a search finds

A reduction combines the elements with their positions and copies of its initial pair in an order
and a bracketing of its own choice.  The closure of a search gives one result for all of them, the
first position of an extreme element: `Builder.argExtremum_finds`.

The pairs are ordered by `Extremum.Precedes`, better elements first and smaller positions first
among equal elements.  The closure picks the first of two pairs, so every bracketing gives the
first of all pairs, `combine?_first`.
-/

namespace TensorProgram

/-! ## Orders and bracketings -/

/-- A list in some order with brackets around every two parts that are combined. -/
inductive Bracketing (α : Type)
  | leaf (x : α)
  | node (left right : Bracketing α)

namespace Bracketing

variable {α : Type}

def leaves : Bracketing α → List α
  | leaf x => [x]
  | node left right => left.leaves ++ right.leaves

def combine? (f : α → α → Option α) : Bracketing α → Option α
  | leaf x => some x
  | node left right => do
    let a ← left.combine? f
    let b ← right.combine? f
    f a b

end Bracketing

/-! ## Pairs of elements and positions -/

namespace Extremum

variable {e : Extremum} {a b c : Int × Int} {x y : Int}

/-- Better numbers have a smaller rank. -/
def rank (e : Extremum) (x : Int) : Int :=
  match e with
  | least => x
  | greatest => -x

theorem rank_inj : e.rank x = e.rank y ↔ x = y := by
  cases e with
  | least => exact Iff.rfl
  | greatest => exact Int.neg_inj

theorem compares_better : e.better.compares x y = decide (e.rank x < e.rank y) := by
  cases e with
  | least => rfl
  | greatest =>
    show decide (y < x) = decide (-x < -y)
    rw [decide_eq_decide]
    omega

/-- The first pair has a better element, or an equal one at the same or a smaller position. -/
def Precedes (e : Extremum) (a b : Int × Int) : Prop :=
  e.rank a.1 < e.rank b.1 ∨ a.1 = b.1 ∧ a.2 ≤ b.2

theorem Precedes.refl (e : Extremum) (a : Int × Int) : e.Precedes a a :=
  .inr ⟨rfl, Int.le_refl _⟩

theorem Precedes.trans (hab : e.Precedes a b) (hbc : e.Precedes b c) : e.Precedes a c := by
  rcases hab with hab | ⟨hab, hij⟩
  · rcases hbc with hbc | ⟨hbc, _⟩
    · exact .inl (Int.lt_trans hab hbc)
    · exact .inl (hbc ▸ hab)
  · rcases hbc with hbc | ⟨hbc, hjk⟩
    · exact .inl (hab ▸ hbc)
    · exact .inr ⟨hab.trans hbc, Int.le_trans hij hjk⟩

/-- The closure picks the one of two pairs that precedes the other. -/
theorem pick_precedes (e : Extremum) (a b : Int × Int) :
    e.pick a b = a ∧ e.Precedes a b ∨ e.pick a b = b ∧ e.Precedes b a := by
  obtain ⟨x, i⟩ := a
  obtain ⟨y, j⟩ := b
  have hequal : ComparisonDirection.equal.compares x y = decide (x = y) := rfl
  simp only [pick, compares_better, hequal, Precedes, decide_eq_true_eq]
  rcases Int.lt_trichotomy (e.rank x) (e.rank y) with h | h | h
  · have hne : x ≠ y := fun hxy => by rw [hxy] at h; omega
    simp [h, hne]
  · obtain rfl := rank_inj.mp h
    rcases Int.le_total i j with hij | hij
    · rw [Int.min_eq_left hij]
      simp [hij]
    · rw [Int.min_eq_right hij]
      simp [hij]
  · have hne : x ≠ y := fun hxy => by rw [hxy] at h; omega
    have hnot : ¬ e.rank x < e.rank y := by omega
    simp [h, hne, hnot]

/-- No number of the list is better. -/
def IsExtreme (e : Extremum) (xs : List Int) (x : Int) : Prop :=
  match e with
  | least => ∀ y ∈ xs, x ≤ y
  | greatest => ∀ y ∈ xs, y ≤ x

theorem isExtreme_iff {xs : List Int} : e.IsExtreme xs x ↔ ∀ y ∈ xs, e.rank x ≤ e.rank y := by
  cases e with
  | least => exact Iff.rfl
  | greatest =>
    refine forall_congr' fun y => imp_congr_right fun _ => ?_
    rw [rank, rank]
    omega

/-- The number at a position is extreme and occurs at no smaller position. -/
def IsFirstExtreme (e : Extremum) (xs : List Int) (x : Int) (m : Nat) : Prop :=
  xs[m]? = some x ∧ e.IsExtreme xs x ∧ ∀ k < m, xs[k]? ≠ some x

end Extremum

/-- In every bracketing the first of all pairs is picked. -/
theorem combine?_first {e : Extremum} {P : Int × Int → Prop}
    {f : Int × Int → Int × Int → Option (Int × Int)}
    (hf : ∀ a b, P a → P b → f a b = some (e.pick a b)) {tree : Bracketing (Int × Int)}
    (hP : ∀ a ∈ tree.leaves, P a) :
    ∃ a ∈ tree.leaves, tree.combine? f = some a ∧ ∀ b ∈ tree.leaves, e.Precedes a b := by
  induction tree with
  | leaf x =>
    refine ⟨x, List.mem_singleton_self x, rfl, fun b hb => ?_⟩
    rw [List.mem_singleton.mp hb]
    exact .refl e x
  | node left right ihl ihr =>
    rw [Bracketing.leaves, List.forall_mem_append] at hP
    obtain ⟨a, ha, hleft, hfirstLeft⟩ := ihl hP.1
    obtain ⟨b, hb, hright, hfirstRight⟩ := ihr hP.2
    have hnode : (Bracketing.node left right).combine? f = some (e.pick a b) := by
      rw [Bracketing.combine?, hleft, hright]
      exact hf a b (hP.1 a ha) (hP.2 b hb)
    rw [hnode, Bracketing.leaves]
    rcases e.pick_precedes a b with ⟨hpick, hab⟩ | ⟨hpick, hba⟩
    · exact ⟨a, List.mem_append_left _ ha, congrArg some hpick,
        List.forall_mem_append.mpr ⟨hfirstLeft, fun c hc => hab.trans (hfirstRight c hc)⟩⟩
    · exact ⟨b, List.mem_append_right _ hb, congrArg some hpick,
        List.forall_mem_append.mpr ⟨fun c hc => hba.trans (hfirstLeft c hc), hfirstRight⟩⟩

/-! ## The list and the initial pair -/

/-- The numbers of a list with their positions. -/
def positioned (xs : List Int) : List (Int × Int) :=
  xs.zipIdx.map fun entry => (entry.1, (entry.2 : Int))

theorem mem_positioned {xs : List Int} {a : Int × Int} :
    a ∈ positioned xs ↔ ∃ k : Nat, xs[k]? = some a.1 ∧ a.2 = k := by
  simp only [positioned, List.mem_map, List.mem_zipIdx_iff_getElem?, Prod.exists]
  constructor
  · rintro ⟨x, k, hk, rfl⟩
    exact ⟨k, hk, rfl⟩
  · rintro ⟨k, hk, ha⟩
    exact ⟨a.1, k, hk, Prod.ext rfl ha.symm⟩

/-- The first of the pairs of a list and copies of a pair with a worst number and position zero has
an extreme number of the list and the first of its positions. -/
theorem first_of_positioned {e : Extremum} {xs : List Int} {worst : Int} {copies : Nat}
    {a : Int × Int} (hxs : xs ≠ []) (hworst : ∀ x ∈ xs, e.rank x ≤ e.rank worst)
    (ha : a ∈ positioned xs ++ List.replicate copies (worst, 0))
    (hfirst : ∀ b ∈ positioned xs ++ List.replicate copies (worst, 0), e.Precedes a b) :
    ∃ m : Nat, a.2 = m ∧ e.IsFirstExtreme xs a.1 m := by
  have hprecedes (k : Nat) (x : Int) (hk : xs[k]? = some x) : e.Precedes a (x, k) :=
    hfirst _ (List.mem_append_left _ (mem_positioned.mpr ⟨k, hk, rfl⟩))
  have hextreme : e.IsExtreme xs a.1 := by
    rw [Extremum.isExtreme_iff]
    intro y hy
    obtain ⟨k, hk⟩ := List.mem_iff_getElem?.mp hy
    rcases hprecedes k y hk with h | ⟨h, _⟩
    · exact Int.le_of_lt h
    · exact Int.le_of_eq (congrArg e.rank h)
  have hearlier {m : Nat} (hm : a.2 = m) : ∀ k < m, xs[k]? ≠ some a.1 := by
    intro k hk hsame
    rcases hprecedes k a.1 hsame with h | ⟨_, h⟩
    · exact Int.lt_irrefl _ h
    · simp only [hm] at h
      omega
  rcases List.mem_append.mp ha with ha | ha
  · obtain ⟨m, hm, hposition⟩ := mem_positioned.mp ha
    exact ⟨m, hposition, hm, hextreme, hearlier hposition⟩
  · -- the worst number is extreme only when all numbers are equal to it
    obtain rfl := List.eq_of_mem_replicate ha
    obtain ⟨x, rest, rfl⟩ := List.exists_cons_of_ne_nil hxs
    have hx : x = worst := by
      have h := hworst x List.mem_cons_self
      rcases hprecedes 0 x rfl with h' | ⟨h', _⟩
      · simp only at h'
        omega
      · exact h'.symm
    exact ⟨0, rfl, by rw [hx]; rfl, hextreme, hearlier rfl⟩

/-! ## What a search starts from -/

section Initial

variable {e : Extremum} {t positionType : ElementType}

/-- The number that every number of an integer type is at least as good as. -/
def Extremum.worstNumber (e : Extremum) (t : ElementType) : Int :=
  match t with
  | .signed w => e.worstSigned w
  | .unsigned w => e.worstUnsigned w
  | _ => 0

theorem worst_element (e : Extremum) (ht : t.isInteger = true) :
    ∃ elements, e.worst? t = some elements ∧
      (Literal.mk (.scalar t) elements).element? = some ⟨t, e.worstNumber t⟩ := by
  cases t with
  | signed w => exact ⟨_, rfl, rfl⟩
  | unsigned w => exact ⟨_, rfl, rfl⟩
  | _ => cases ht

theorem zero_element (ht : positionType.isInteger = true) :
    (Literal.mk (.scalar positionType) (zeroPosition positionType)).element? =
      some ⟨positionType, 0⟩ := by
  cases positionType with
  | signed w => rfl
  | unsigned w => rfl
  | _ => cases ht

/-- The type holds the number and no worse one. -/
theorem worstNumber_worst (e : Extremum) (ht : t.isInteger = true) :
    t.holds (e.worstNumber t) ∧ ∀ x, t.holds x → e.rank x ≤ e.rank (e.worstNumber t) := by
  cases t with
  | signed w =>
    have hpos := ElementType.shiftLeft_pos (w.bits - 1)
    cases e with
    | least =>
      simp only [ElementType.holds, Extremum.rank, Extremum.worstNumber, Extremum.worstSigned]
      exact ⟨by omega, fun x hx => by omega⟩
    | greatest =>
      simp only [ElementType.holds, Extremum.rank, Extremum.worstNumber, Extremum.worstSigned]
      exact ⟨by omega, fun x hx => by omega⟩
  | unsigned w =>
    have hpos := ElementType.shiftLeft_pos w.bits
    cases e with
    | least =>
      simp only [ElementType.holds, Extremum.rank, Extremum.worstNumber, Extremum.worstUnsigned]
      exact ⟨by omega, fun x hx => by omega⟩
    | greatest =>
      simp only [ElementType.holds, Extremum.rank, Extremum.worstNumber, Extremum.worstUnsigned]
      exact ⟨by omega, fun x hx => by omega⟩
  | _ => cases ht

end Initial

/-! ## What a search records -/

/-- What a closure on two elements with their positions makes of two pairs of numbers. -/
def Program.combinePairs? (p : Program) (closure : FunctionId) (t positionType : ElementType)
    (a b : Int × Int) : Option (Int × Int) :=
  match p.call? closure [⟨t, a.1⟩, ⟨positionType, a.2⟩, ⟨t, b.1⟩, ⟨positionType, b.2⟩] with
  | some [x, i] => if x.type = t ∧ i.type = positionType then some (x.value, i.value) else none
  | _ => none

theorem Program.HoldsBetterPair.combinePairs?_eq {p : Program} {body : FunctionId} {e : Extremum}
    {t positionType : ElementType} {a b : Int × Int} (h : p.HoldsBetterPair body e t positionType)
    (ht : t.isInteger = true) (ha : t.holds a.1 ∧ positionType.holds a.2)
    (hb : t.holds b.1 ∧ positionType.holds b.2) :
    p.combinePairs? body t positionType a b = some (e.pick a b) := by
  rw [Program.combinePairs?, h.call? ht ha.1 ha.2 hb.1 hb.2]
  exact if_pos ⟨rfl, rfl⟩

theorem argMinMax_integers {axis : Int} {t positionType : ElementType} {dimensions : List Nat}
    {a : Nat} (ht : t.isInteger = true) (hposition : positionType.isInteger = true)
    (haxis : Inference.normalizeAxis axis dimensions.length = .ok a) :
    Inference.argMinMax (.of t dimensions) axis positionType =
      .ok (.of positionType (dimensions.eraseIdx a)) := by
  obtain ⟨_, ha⟩ := Inference.normalizeAxis_eq_ok.mp haxis
  have hboolean : t.isBoolean = false := by
    cases t with
    | boolean => cases ht
    | _ => rfl
  have hne : dimensions ≠ [] := List.ne_nil_of_length_pos (Nat.zero_lt_of_lt ha)
  simp [Inference.argMinMax, Inference.elementType, Shape.of, Inference.requireCapabilities,
    OpKind.capabilities, Capability.elementClass?, List.filterMap, Inference.requireClass,
    Inference.require, ElementClass.contains, hboolean, hposition, Shape.isScalar, Shape.isValid,
    hne, Shape.rank, haxis, Inference.entry, ha]

theorem zeroPosition_literal {positionType : ElementType} (h : positionType.isInteger = true) :
    Literal.ofElements (.scalar positionType) (zeroPosition positionType) =
      .ok ⟨.scalar positionType, zeroPosition positionType⟩ := by
  cases positionType with
  | signed w => rfl
  | unsigned w => rfl
  | _ => cases h

namespace Builder

open Program

/-- A search along an axis of a tensor of integers passes its check. -/
theorem checkSearch_integers {p : Program} {id : FunctionId} {f : Function} {e : Extremum}
    {operand : Value} {axis : Int} {t positionType : ElementType} {dimensions : List Nat} {a : Nat}
    {elements : Elements} (hopen : p.openFunction id = .ok f)
    (hoperand : p.shapeOf id operand = .ok (.of t dimensions)) (ht : t.isInteger = true)
    (hposition : positionType.isInteger = true)
    (haxis : Inference.normalizeAxis axis dimensions.length = .ok a)
    (hworst : e.worst? t = some elements) :
    checkSearch id e operand axis positionType p =
      .ok ⟨.of t dimensions, t, ⟨.scalar t, elements⟩,
        ⟨.scalar positionType, zeroPosition positionType⟩⟩ := by
  have helement : Inference.elementType (.of t dimensions) = .ok t := rfl
  simp only [checkSearch, hopen, hoperand, argMinMax_integers ht hposition haxis, helement,
    zeroPosition_literal hposition, hworst, Except.mapError, ok_bind]
  rfl

/-- The closure of a search stays as it was made. -/
theorem run_fillBetterPair {p q r : Program} {id body root : FunctionId} {e : Extremum}
    {t positionType : ElementType} (ht : t.isComplex = false)
    (hview : p.view? body = some ⟨.closure id root, [], [], none, false⟩) (hbody : p.body body = [])
    (h : (fillBetterPair body e t positionType).run p = (.ok (), q)) (hr : q.Extends r) :
    r.HoldsBetterPair body e t positionType := by
  obtain ⟨q', hq', hview', hbody'⟩ := fillBetterPair_adds ht e positionType id root p hview
  obtain rfl : q = q' := (Prod.mk.inj (h.symm.trans hq')).2
  obtain ⟨f, hf, hfview⟩ := Option.map_eq_some_iff.mp hview'
  have hreturned : f.isReturned = true := by
    have houtputs := congrArg Function.View.outputs? hfview
    simp only [Function.view, betterPairView, Option.map_eq_some_iff] at houtputs
    obtain ⟨outputs, houtputs, _⟩ := houtputs
    rw [Function.isReturned, houtputs]
    rfl
  obtain ⟨g, hg, hext⟩ := hr body f hf
  obtain ⟨hinputs, hvalues, hstatements, _⟩ := hext.frozen hreturned
  refine ⟨⟨g.view, by rw [view?, hg]; rfl, ?_, ?_⟩, ?_⟩
  · exact hinputs.trans (congrArg Function.View.inputs hfview)
  · exact (congrArg (List.map ValueData.shape) hvalues).trans
      (congrArg Function.View.shapes hfview)
  · rw [body_eq hg, hstatements, ← body_eq hf, hbody', hbody]
    rfl

/-- What a search leaves behind: four statements of the function, of which two are the constants
that the reduction starts from, and the closure of the reduction. -/
theorem run_argExtremum_body {p q : Program} {id : FunctionId} {e : Extremum} {operand v : Value}
    {axis : Int} {positionType : ElementType} {search : ExtremumSearch}
    (hsearch : checkSearch id e operand axis positionType p = .ok search)
    (h : (argExtremum id e operand axis positionType).run p = (.ok v, q)) :
    ∃ positions worst zero reduction body,
      q.body id = p.body id ++ [positions, worst, zero, reduction] ∧ positions.op = .iota ∧
      worst.result? [] = search.worst.element? ∧ zero.result? [] = search.zero.element? ∧
      reduction.op = .reduce ∧
      reduction.inputs = operand :: (positions.outputs ++ worst.outputs ++ zero.outputs) ∧
      reduction.closure? = some ⟨"body", body⟩ ∧ reduction.outputs[1]? = some v ∧
      q.HoldsBetterPair body e search.elementType positionType := by
  obtain ⟨search', positions, worst, zero, body, outputs, q₁, q₂, q₃, q₄, q₅, hsearch', h₁, h₂, h₃,
    h₄, h₅, h₆, hv⟩ := run_argExtremum h
  obtain rfl : search = search' := Except.ok.inj (hsearch.symm.trans hsearch')
  obtain ⟨_, _, _, hcomplex, _, _, result, hresult⟩ := checkSearch_eq_ok hsearch
  obtain ⟨hscalar, hinteger, a, ha, hlt, rfl⟩ := Inference.argMinMax_eq_ok hresult
  rw [ha] at h₁ h₆
  have hinfer := infer_iota_positions hscalar hinteger hlt
  have hbody₁ := run_appendSingle_body rfl rfl hinfer h₁
  have hbody₂ := run_appendSingle_body rfl rfl rfl h₂
  have hbody₃ := run_appendSingle_body rfl rfl rfl h₃
  obtain ⟨shaped, results, _, _, _, hbody₆⟩ := run_append_body rfl h₆
  obtain ⟨⟨f, hopen⟩, rfl, rfl⟩ := run_closure_eq_ok.mp h₄
  have hid : id ≠ q₃.functions.length :=
    Nat.ne_of_lt (lt_of_function? (openFunction_eq_ok.mp hopen).1)
  rw [(fillBetterPair_leaves e _ _ hid).run_eq h₅, body_addFunction, hbody₃, hbody₂,
    hbody₁] at hbody₆
  simp only [List.append_assoc, List.cons_append, List.nil_append] at hbody₆
  refine ⟨_, _, _, _, _, hbody₆, rfl, rfl, rfl, rfl, rfl, rfl, hv, ?_⟩
  have hview : (q₃.addFunction (.closure id (q₃.root id))).2.view? q₃.functions.length =
      some ⟨.closure id (q₃.root id), [], [], none, false⟩ := by
    rw [view?_addFunction, if_pos rfl]
  refine run_fillBetterPair hcomplex hview ?_ h₅ ((append_allOrNothing id _).extends h₆)
  rw [body_addFunction, body, function?, List.getElem?_eq_none (Nat.le_refl _)]
  rfl

/-- A search along an axis of a tensor of integers succeeds.  It records two constants and a
reduction whose closure, for any non-empty list of numbers of the type with their positions and any
number of copies of the two constants, in every order and every bracketing, finds an extreme number
and the first of its positions. -/
theorem argExtremum_finds {p : Program} {id : FunctionId} {f : Function} (e : Extremum)
    {operand : Value} {axis : Int} {t positionType : ElementType} {dimensions : List Nat} {a : Nat}
    (hopen : p.openFunction id = .ok f) (hoperand : p.shapeOf id operand = .ok (.of t dimensions))
    (ht : t.isInteger = true) (hposition : positionType.isInteger = true)
    (haxis : Inference.normalizeAxis axis dimensions.length = .ok a) :
    ∃ v q positions worst zero reduction body initial,
      (argExtremum id e operand axis positionType).run p = (.ok v, q) ∧
      q.body id = p.body id ++ [positions, worst, zero, reduction] ∧
      positions.op = .iota ∧ reduction.op = .reduce ∧
      reduction.inputs = operand :: (positions.outputs ++ worst.outputs ++ zero.outputs) ∧
      reduction.closure? = some ⟨"body", body⟩ ∧ reduction.outputs[1]? = some v ∧
      worst.result? [] = some ⟨t, initial⟩ ∧ zero.result? [] = some ⟨positionType, 0⟩ ∧
      ∀ xs : List Int, xs ≠ [] → (∀ x ∈ xs, t.holds x) → positionType.holds (xs.length - 1) →
        ∀ (copies : Nat) (tree : Bracketing (Int × Int)),
          tree.leaves.Perm (positioned xs ++ List.replicate copies (initial, 0)) →
          ∃ (x : Int) (m : Nat),
            tree.combine? (q.combinePairs? body t positionType) = some (x, (m : Int)) ∧
            e.IsFirstExtreme xs x m := by
  obtain ⟨elements, hworst, helement⟩ := worst_element e ht
  have hsearch := checkSearch_integers hopen hoperand ht hposition haxis hworst
  obtain ⟨v, q, hrun⟩ := argExtremum_succeeds hsearch
  obtain ⟨positions, worst, zero, reduction, body, hbody, hiota, hfirst, hsecond, hreduce, hinputs,
    hclosure, houtput, hholds⟩ := run_argExtremum_body hsearch hrun.1
  refine ⟨v, q, positions, worst, zero, reduction, body, e.worstNumber t, hrun.1, hbody, hiota,
    hreduce, hinputs, hclosure, houtput, hfirst.trans helement,
    hsecond.trans (zero_element hposition), fun xs hxs hnumbers hlast copies tree hperm => ?_⟩
  have hleaves : ∀ b ∈ tree.leaves, t.holds b.1 ∧ positionType.holds b.2 := by
    intro b hb
    rcases List.mem_append.mp (hperm.mem_iff.mp hb) with hb | hb
    · obtain ⟨k, hk, hindex⟩ := mem_positioned.mp hb
      obtain ⟨hk', _⟩ := List.getElem?_eq_some_iff.mp hk
      refine ⟨hnumbers b.1 (List.mem_of_getElem? hk), ?_⟩
      rw [hindex]
      exact hlast.of_le hposition (Int.natCast_nonneg k) (by omega)
    · rw [List.eq_of_mem_replicate hb]
      exact ⟨(worstNumber_worst e ht).1, ElementType.holds_zero hposition⟩
  obtain ⟨b, hb, hcombine, hprecedes⟩ :=
    combine?_first (fun _ _ ha hb => hholds.combinePairs?_eq ht ha hb) hleaves
  obtain ⟨m, hm, hfound⟩ := first_of_positioned hxs
    (fun x hx => (worstNumber_worst e ht).2 x (hnumbers x hx)) (hperm.mem_iff.mp hb)
    (fun c hc => hprecedes c (hperm.mem_iff.mpr hc))
  refine ⟨b.1, m, ?_, hfound⟩
  rw [hcombine, ← hm]

/-- A function with three bytes for its input. -/
def threeBytes : Program :=
  .ofCalls "example" [.function "main" [.of (.signed .w8) [3]]]

/-- The reduction may start with the second seven: the position of the first one is found. -/
theorem argExtremum_finds_first_seven :
    ∃ f, threeBytes.openFunction 0 = .ok f ∧
      threeBytes.shapeOf 0 ⟨0, 0⟩ = .ok (.of (.signed .w8) [3]) ∧
      Inference.normalizeAxis (-1) [3].length = .ok 0 ∧
      ∃ v q positions worst zero reduction body initial,
        (argExtremum 0 .greatest ⟨0, 0⟩ (-1) (.unsigned .w32)).run threeBytes = (.ok v, q) ∧
        q.body 0 = [positions, worst, zero, reduction] ∧
        reduction.closure? = some ⟨"body", body⟩ ∧
        worst.result? [] = some ⟨.signed .w8, initial⟩ ∧
        zero.result? [] = some ⟨.unsigned .w32, 0⟩ ∧
        (Bracketing.node (.node (.leaf (7, 2)) (.leaf (initial, 0)))
          (.node (.leaf (-3, 0)) (.leaf (7, 1)))).combine?
            (q.combinePairs? body (.signed .w8) (.unsigned .w32)) = some (7, 1) := by
  obtain ⟨f, hopen⟩ : ∃ f, threeBytes.openFunction 0 = .ok f := ⟨_, rfl⟩
  have hoperand : threeBytes.shapeOf 0 ⟨0, 0⟩ = .ok (.of (.signed .w8) [3]) := by decide
  have haxis : Inference.normalizeAxis (-1) [3].length = .ok 0 := by decide
  refine ⟨f, hopen, hoperand, haxis, ?_⟩
  obtain ⟨v, q, positions, worst, zero, reduction, body, initial, hrun, hbody, _, _, _, hclosure, _,
    hworst, hzero, hfinds⟩ := argExtremum_finds .greatest hopen hoperand rfl
      (show (ElementType.unsigned .w32).isInteger = true from rfl) haxis
  obtain ⟨x, m, hcombine, hx, hextreme, hfirst⟩ := hfinds [-3, 7, 7] (by decide) (by decide)
    (by decide) 1
    (.node (.node (.leaf (7, 2)) (.leaf (initial, 0))) (.node (.leaf (-3, 0)) (.leaf (7, 1))))
    List.perm_append_comm
  refine ⟨v, q, positions, worst, zero, reduction, body, initial, hrun, hbody, hclosure, hworst,
    hzero, ?_⟩
  rw [hcombine]
  have hseven : 7 ≤ x := hextreme 7 (by decide)
  match m with
  | 0 =>
    obtain rfl := Option.some.inj hx
    omega
  | 1 => rw [← Option.some.inj hx]; rfl
  | 2 => exact absurd hx (hfirst 1 (by decide))
  | m + 3 => cases hx

end Builder

end TensorProgram
