import Mathlib.Algebra.BigOperators.Ring.List
import Mathlib.Algebra.Order.BigOperators.Group.List
import TensorProgram.Operation.Attributes
import TensorProgram.Proofs.Extents
import TensorProgram.Proofs.RemainingAxes

/-!
# Concatenations

The rule compares every input with the first one and adds up the extents along the axis.  What it
accepts does not single out the first input: all inputs have the same layers across the axis, and
the sum of their extents is a size, `Joined`.

A layer is what remains of a shape when the extent along the axis is one, `Shape.layer`.  A shape is
its layer and the number of its layers, `Shape.eq_of_layer`, and its elements are those of all its
layers, `Shape.size_eq_layer`.  So inputs may be joined in blocks, `joined_flatten_iff`, and in any
order, `Joined.perm`.
-/

namespace TensorProgram

/-! ## Layers -/

namespace Shape

variable {s s' : Shape} {a m n : Nat}

/-- The shape with another extent along an axis. -/
def withExtent (s : Shape) (a n : Nat) : Shape :=
  s.withDimensions (s.dimensions.set a n)

/-- The extent along an axis, of which there are none beyond the rank. -/
def extentAt (s : Shape) (a : Nat) : Nat :=
  s.dimensions[a]?.getD 0

/-- What remains of a shape for a single place on an axis. -/
def layer (s : Shape) (a : Nat) : Shape :=
  s.withExtent a 1

theorem of_set {t : ElementType} (h : s.elementType? = some t) :
    of t (s.dimensions.set a n) = s.withExtent a n := by
  rw [withExtent, withDimensions, h]
  rfl

@[simp] theorem elementType?_withExtent : (s.withExtent a n).elementType? = s.elementType? := rfl

@[simp] theorem rank_withExtent : (s.withExtent a n).rank = s.rank :=
  List.length_set

@[simp] theorem withExtent_withExtent : (s.withExtent a m).withExtent a n = s.withExtent a n := by
  simp [withExtent, withDimensions]

@[simp] theorem layer_withExtent : (s.withExtent a n).layer a = s.layer a :=
  withExtent_withExtent

@[simp] theorem withExtent_layer : (s.layer a).withExtent a n = s.withExtent a n :=
  withExtent_withExtent

theorem extentAt_eq (h : s.dimensions[a]? = some n) : s.extentAt a = n := by
  rw [extentAt, h, Option.getD_some]

theorem getElem?_eq_extentAt (h : a < s.rank) : s.dimensions[a]? = some (s.extentAt a) := by
  rw [extentAt, List.getElem?_eq_getElem h, Option.getD_some]

theorem extentAt_withExtent (h : a < s.rank) : (s.withExtent a n).extentAt a = n :=
  extentAt_eq (List.getElem?_set_self h)

theorem withExtent_extentAt (h : a < s.rank) : s.withExtent a (s.extentAt a) = s := by
  have hset : s.dimensions.set a s.dimensions[a] = s.dimensions := List.set_getElem_self h
  rw [extentAt_eq (List.getElem?_eq_getElem h), withExtent, hset]
  rfl

theorem elementType?_of_layer (h : s.layer a = s'.layer a) : s.elementType? = s'.elementType? := by
  simpa [layer] using congrArg elementType? h

theorem rank_of_layer (h : s.layer a = s'.layer a) : s.rank = s'.rank := by
  simpa [layer] using congrArg rank h

/-- A shape is its layer and the number of its layers. -/
theorem eq_of_layer (ha : a < s.rank) (h : s.layer a = s'.layer a)
    (hextent : s.extentAt a = s'.extentAt a) : s = s' := by
  rw [← withExtent_extentAt ha, ← withExtent_layer, h, hextent, withExtent_layer,
    withExtent_extentAt (rank_of_layer h ▸ ha)]

theorem size_withExtent (h : a < s.rank) : (s.withExtent a n).size = (s.layer a).size * n := by
  have hlt : a < s.dimensions.length := h
  simp only [layer, size_eq_prod, withExtent, withDimensions, List.prod_set, if_pos hlt]
  ring

/-- The elements are those of all layers. -/
theorem size_eq_layer (h : a < s.rank) : s.size = (s.layer a).size * s.extentAt a := by
  rw [← size_withExtent h, withExtent_extentAt h]

end Shape

namespace Inference

/-! ## What is accepted -/

/-- The extents of the inputs along an axis, added up. -/
def totalExtent (a : Nat) (inputs : List Shape) : Nat :=
  (inputs.map (Shape.extentAt · a)).sum

@[simp] theorem totalExtent_nil (a : Nat) : totalExtent a [] = 0 := rfl

@[simp] theorem totalExtent_cons (a : Nat) (input : Shape) (rest : List Shape) :
    totalExtent a (input :: rest) = input.extentAt a + totalExtent a rest := by
  simp [totalExtent]

theorem totalExtent_flatten (a : Nat) (blocks : List (List Shape)) :
    totalExtent a blocks.flatten = (blocks.map (totalExtent a)).sum := by
  rw [totalExtent, List.map_flatten, List.sum_flatten, List.map_map]
  rfl

/-- The inputs have the layers of the shape, which has as many of them as all inputs together.
Extents that are added up have a limit. -/
structure Joined (a : Nat) (inputs : List Shape) (s : Shape) : Prop where
  nonempty : inputs ≠ []
  valid : s.isValid = true
  axis : a < s.rank
  layers : ∀ input ∈ inputs, input.layer a = s.layer a
  extent : s.extentAt a = totalExtent a inputs
  limit : inputs.length = 1 ∨ s.extentAt a < Size.limit

section Rule

variable {first input s : Shape} {a total n : Nat} {rest inputs : List Shape} {axis : Int}

theorem agreeExcept_iff {lhs rhs : List Nat} :
    agreeExcept a lhs rhs = true ↔ lhs.set a 1 = rhs.set a 1 := by
  have hentries : agreeExcept a lhs rhs = true ↔ lhs.length = rhs.length ∧
      ∀ index m n, lhs[index]? = some m → rhs[index]? = some n → index = a ∨ m = n := by
    simp only [agreeExcept, Bool.and_eq_true, beq_iff_eq, List.all_eq_true, Prod.forall,
      List.mk_mem_zipIdx_iff_getElem?, List.getElem?_zip_eq_some, Bool.or_eq_true, and_imp]
    exact and_congr_right fun _ =>
      ⟨fun h index m n => h m n index, fun h m n index => h index m n⟩
  rw [hentries]
  constructor
  · rintro ⟨hlength, h⟩
    refine List.ext_getElem (by simpa using hlength) fun index hl hr => ?_
    rw [List.length_set] at hl hr
    rw [List.getElem_set, List.getElem_set]
    split_ifs with hindex
    · rfl
    · have hagree := h index _ _ (List.getElem?_eq_getElem hl) (List.getElem?_eq_getElem hr)
      exact hagree.resolve_left (Ne.symm hindex)
  · intro h
    refine ⟨by simpa using congrArg List.length h, fun index m n hm hn => ?_⟩
    rw [or_iff_not_imp_left]
    intro hindex
    have hsame := congrArg (·[index]?) h
    simpa [List.getElem?_set_ne (Ne.symm hindex), hm, hn] using hsame

theorem addInput_eq_ok (hvalid : first.isValid = true) (ha : a < first.rank) :
    addInput first a total input = .ok n ↔
      input.layer a = first.layer a ∧ n = total + input.extentAt a ∧ n < Size.limit := by
  obtain ⟨t, ht⟩ := Option.isSome_iff_exists.mp hvalid
  simp only [addInput, bind_eq_ok, commonElementType_eq_ok, ht, require_eq_ok, agreeExcept_iff,
    entry_eq_ok, Size.add, Size.bounded_eq_ok]
  constructor
  · rintro ⟨_, ⟨h, hinput⟩, _, hagree, extent, hextent, hlt, rfl⟩
    rw [Shape.extentAt_eq hextent]
    refine ⟨?_, rfl, hlt⟩
    rw [Shape.layer, Shape.layer, ← Shape.of_set hinput, hagree]
    exact Shape.of_set (ht.trans h)
  · rintro ⟨hlayer, rfl, hlt⟩
    have hinput : a < input.rank := Shape.rank_of_layer hlayer ▸ ha
    exact ⟨t, ⟨rfl, (Shape.elementType?_of_layer hlayer).trans ht⟩, (),
      congrArg Shape.dimensions hlayer, _, Shape.getElem?_eq_extentAt hinput, hlt, rfl⟩

/-- The extents are added up as long as the inputs have the layers of the first one. -/
theorem foldlM_addInput_eq_ok (hvalid : first.isValid = true) (ha : a < first.rank) :
    rest.foldlM (addInput first a) total = .ok n ↔
      (∀ input ∈ rest, input.layer a = first.layer a) ∧
        n = total + totalExtent a rest ∧ (rest = [] ∨ n < Size.limit) := by
  induction rest generalizing total with
  | nil => simp [eq_comm]
  | cons input rest ih =>
    simp only [List.foldlM_cons, bind_eq_ok, addInput_eq_ok hvalid ha, ih, List.forall_mem_cons,
      totalExtent_cons]
    constructor
    · rintro ⟨_, ⟨hlayer, rfl, hlt⟩, hlayers, rfl, hlimit⟩
      refine ⟨⟨hlayer, hlayers⟩, by omega, .inr ?_⟩
      rcases hlimit with rfl | hlimit
      · simpa using hlt
      · exact hlimit
    · rintro ⟨⟨hlayer, hlayers⟩, rfl, hlimit⟩
      have hlt := hlimit.resolve_left (List.cons_ne_nil _ _)
      exact ⟨_, ⟨hlayer, rfl, by omega⟩, hlayers, by omega, .inr hlt⟩

theorem concatenate_eq_ok :
    concatenate inputs axis = .ok s ↔ ∃ a : Nat, fromFront axis s.rank = a ∧ Joined a inputs s := by
  cases inputs with
  | nil => simpa [concatenate] using fun a _ h => h.nonempty rfl
  | cons first rest =>
    simp only [concatenate, bind_eq_ok, elementType_eq_ok, require_eq_ok, normalizeAxis_eq_ok,
      entry_eq_ok, replaceEntry_eq_ok, pure_eq_ok, Except.ok.injEq]
    constructor
    · rintro ⟨t, ht, _, _, a, ⟨haxis, ha⟩, extent, hextent, total, htotal, _, ⟨_, rfl⟩, rfl⟩
      have hvalid : first.isValid = true := Option.isSome_iff_exists.mpr ⟨t, ht⟩
      obtain ⟨hlayers, rfl, hlimit⟩ := (foldlM_addInput_eq_ok hvalid ha).mp htotal
      rw [Shape.of_set ht]
      refine ⟨a, by rwa [Shape.rank_withExtent], List.cons_ne_nil _ _, hvalid, ?_, ?_, ?_, ?_⟩
      · rwa [Shape.rank_withExtent]
      · simpa using hlayers
      · rw [Shape.extentAt_withExtent ha, totalExtent_cons, Shape.extentAt_eq hextent]
      · rw [Shape.extentAt_withExtent ha]
        exact hlimit.imp_left fun hrest => by rw [hrest, List.length_singleton]
    · rintro ⟨a, haxis, h⟩
      obtain ⟨t, ht⟩ := Option.isSome_iff_exists.mp h.valid
      have hlayers := List.forall_mem_cons.mp h.layers
      have hrank := Shape.rank_of_layer hlayers.1
      have ha : a < first.rank := hrank ▸ h.axis
      have hfirst : first.elementType? = some t := (Shape.elementType?_of_layer hlayers.1).trans ht
      have hvalid : first.isValid = true := Option.isSome_iff_exists.mpr ⟨t, hfirst⟩
      have htotal : rest.foldlM (addInput first a) (first.extentAt a) = .ok (s.extentAt a) :=
        (foldlM_addInput_eq_ok hvalid ha).mpr
          ⟨fun input hinput => (hlayers.2 input hinput).trans hlayers.1.symm, h.extent,
            h.limit.imp_left fun hlength => List.length_eq_zero_iff.mp (Nat.succ.inj hlength)⟩
      have hs : Shape.of t (first.dimensions.set a (s.extentAt a)) = s := by
        rw [Shape.of_set hfirst, ← Shape.withExtent_layer, hlayers.1, Shape.withExtent_layer,
          Shape.withExtent_extentAt h.axis]
      exact ⟨t, hfirst, (), by simpa using Nat.ne_zero_of_lt ha, a, ⟨hrank ▸ haxis, ha⟩, _,
        Shape.getElem?_eq_extentAt ha, _, htotal, _, ⟨ha, rfl⟩, hs⟩

end Rule

/-! ## Blocks and orders -/

section Regrouping

variable {a : Nat} {s : Shape} {inputs others : List Shape} {blocks : List (List Shape)}
  {axis : Int}

theorem forall₂_congr_right {α β : Type} {R S : α → β → Prop} {xs : List α} {ys : List β}
    (h : ∀ y ∈ ys, ∀ x, R x y ↔ S x y) : List.Forall₂ R xs ys ↔ List.Forall₂ S xs ys := by
  induction ys generalizing xs with
  | nil => simp only [List.forall₂_nil_right_iff]
  | cons y ys ih =>
    rw [List.forall_mem_cons] at h
    simp only [List.forall₂_cons_right_iff, h.1, ih h.2]

/-- A single input is the result itself. -/
theorem Joined.eq_of_singleton {input : Shape} (h : Joined a [input] s) : input = s := by
  have hlayer := List.forall_mem_singleton.mp h.layers
  have hextent : input.extentAt a = s.extentAt a := by
    simp [h.extent]
  exact Shape.eq_of_layer (Shape.rank_of_layer hlayer ▸ h.axis) hlayer hextent

/-- A block of the inputs can be joined on its own. -/
theorem Joined.block (h : Joined a blocks.flatten s) {block : List Shape} (hblock : block ∈ blocks)
    (hne : block ≠ []) :
    Joined a block (s.withExtent a (totalExtent a block)) where
  nonempty := hne
  valid := h.valid
  axis := by
    rw [Shape.rank_withExtent]
    exact h.axis
  layers input hinput := by
    rw [Shape.layer_withExtent]
    exact h.layers input (List.mem_flatten.mpr ⟨block, hblock, hinput⟩)
  extent := Shape.extentAt_withExtent h.axis
  limit := by
    rw [Shape.extentAt_withExtent h.axis]
    have hsum : totalExtent a block ≤ s.extentAt a := by
      rw [h.extent, totalExtent_flatten]
      exact List.le_sum_of_mem (List.mem_map_of_mem hblock)
    have hlength : block.length ≤ blocks.flatten.length := by
      rw [List.length_flatten]
      exact List.le_sum_of_mem (List.mem_map_of_mem hblock)
    have hpos := List.length_pos_iff.mpr hne
    rcases h.limit with hone | hlt
    · exact .inl (by omega)
    · exact .inr (by omega)

/-- What the blocks are joined to can be joined to all. -/
theorem Joined.parts (h : Joined a blocks.flatten s) (hblocks : ∀ block ∈ blocks, block ≠ []) :
    Joined a (blocks.map fun block => s.withExtent a (totalExtent a block)) s where
  nonempty hnil := h.nonempty (by rw [List.map_eq_nil_iff.mp hnil, List.flatten_nil])
  valid := h.valid
  axis := h.axis
  layers := by simp
  extent := by
    rw [h.extent, totalExtent_flatten, totalExtent, List.map_map]
    simp only [Function.comp_def, Shape.extentAt_withExtent h.axis]
  limit := by
    have hlengths : blocks.length ≤ blocks.flatten.length := by
      rw [List.length_flatten, ← List.length_map (f := List.length)]
      refine List.length_le_sum_of_one_le _ fun n hn => ?_
      obtain ⟨block, hblock, rfl⟩ := List.mem_map.mp hn
      exact List.length_pos_iff.mpr (hblocks block hblock)
    have hpos : 0 < blocks.length :=
      List.length_pos_iff.mpr fun hnil => h.nonempty (by rw [hnil, List.flatten_nil])
    rw [List.length_map]
    exact h.limit.imp_left fun hone => by omega

/-- What can be joined after its blocks were joined can be joined at once. -/
theorem Joined.of_parts {parts : List Shape} (hblocks : List.Forall₂ (Joined a) blocks parts)
    (h : Joined a parts s) : Joined a blocks.flatten s := by
  have hextents : blocks.map (totalExtent a) = parts.map (Shape.extentAt · a) := by
    rw [← List.forall₂_eq_eq_eq, List.forall₂_map_left_iff, List.forall₂_map_right_iff]
    exact hblocks.imp fun _ _ hpart => hpart.extent.symm
  refine ⟨?nonempty, h.valid, h.axis, ?layers, ?extent, ?limit⟩
  case nonempty =>
    intro hnil
    obtain ⟨part, hpart⟩ := List.exists_mem_of_ne_nil _ h.nonempty
    obtain ⟨block, hblock, hjoined⟩ := exists_of_mem_left hblocks.flip hpart
    exact hjoined.nonempty (List.flatten_eq_nil_iff.mp hnil block hblock)
  case layers =>
    intro input hinput
    obtain ⟨block, hblock, hinput⟩ := List.mem_flatten.mp hinput
    obtain ⟨part, hpart, hjoined⟩ := exists_of_mem_left hblocks hblock
    exact (hjoined.layers input hinput).trans (h.layers part hpart)
  case extent => rw [h.extent, totalExtent_flatten, hextents, totalExtent]
  case limit =>
    rcases h.limit with hone | hlt
    · obtain ⟨part, rfl⟩ := List.length_eq_one_iff.mp hone
      obtain ⟨block, _, hjoined, hnil, rfl⟩ := List.forall₂_cons_right_iff.mp hblocks
      obtain rfl := List.forall₂_nil_right_iff.mp hnil
      obtain rfl := h.eq_of_singleton
      simpa using hjoined.limit
    · exact .inr hlt

theorem joined_flatten_iff (hblocks : ∀ block ∈ blocks, block ≠ []) :
    Joined a blocks.flatten s ↔
      ∃ parts, List.Forall₂ (Joined a) blocks parts ∧ Joined a parts s := by
  constructor
  · intro h
    refine ⟨_, ?_, h.parts hblocks⟩
    rw [List.forall₂_map_right_iff, List.forall₂_same]
    exact fun block hblock => h.block hblock (hblocks block hblock)
  · rintro ⟨parts, hparts, h⟩
    exact .of_parts hparts h

theorem concatenate_eq_ok_of_axis (ha : fromFront axis s.rank = (a : Int)) :
    concatenate inputs axis = .ok s ↔ Joined a inputs s := by
  rw [concatenate_eq_ok]
  constructor
  · rintro ⟨b, hb, h⟩
    obtain rfl : a = b := by omega
    exact h
  · exact fun h => ⟨a, ha, h⟩

theorem concatenate_flatten (hblocks : ∀ block ∈ blocks, block ≠ []) :
    concatenate blocks.flatten axis = .ok s ↔
      ∃ parts, blocks.mapM (concatenate · axis) = .ok parts ∧ concatenate parts axis = .ok s := by
  -- the parts have the rank of the result, so the axis is the same for all of them
  have hparts {a : Nat} {parts : List Shape} (ha : fromFront axis s.rank = (a : Int))
      (h : Joined a parts s) :
      blocks.mapM (concatenate · axis) = .ok parts ↔ List.Forall₂ (Joined a) blocks parts := by
    rw [mapM_eq_ok]
    refine forall₂_congr_right fun part hpart block => concatenate_eq_ok_of_axis ?_
    rw [Shape.rank_of_layer (h.layers part hpart), ha]
  constructor
  · intro h
    obtain ⟨a, ha, h⟩ := concatenate_eq_ok.mp h
    obtain ⟨parts, hjoined, h⟩ := (joined_flatten_iff hblocks).mp h
    exact ⟨parts, (hparts ha h).mpr hjoined, (concatenate_eq_ok_of_axis ha).mpr h⟩
  · rintro ⟨parts, hmap, h⟩
    obtain ⟨a, ha, h⟩ := concatenate_eq_ok.mp h
    exact (concatenate_eq_ok_of_axis ha).mpr (.of_parts ((hparts ha h).mp hmap) h)

theorem Joined.perm (h : Joined a inputs s) (hperm : inputs.Perm others) : Joined a others s where
  nonempty hnil := h.nonempty (hnil ▸ hperm).eq_nil
  valid := h.valid
  axis := h.axis
  layers input hinput := h.layers input (hperm.mem_iff.mpr hinput)
  extent := by rw [h.extent, totalExtent, totalExtent, (hperm.map _).sum_eq]
  limit := by
    rw [← hperm.length_eq]
    exact h.limit

theorem Joined.size_eq (h : Joined a inputs s) : s.size = (inputs.map Shape.size).sum := by
  have hsize : ∀ input ∈ inputs, input.size = (s.layer a).size * input.extentAt a := by
    intro input hinput
    have hlayer := h.layers input hinput
    rw [← hlayer, ← Shape.size_eq_layer (Shape.rank_of_layer hlayer ▸ h.axis)]
  rw [Shape.size_eq_layer h.axis, h.extent, totalExtent, ← List.sum_map_mul_left,
    List.map_congr_left hsize]

theorem concatenate_perm (hperm : inputs.Perm others) (h : concatenate inputs axis = .ok s) :
    concatenate others axis = .ok s := by
  obtain ⟨a, ha, h⟩ := concatenate_eq_ok.mp h
  exact (concatenate_eq_ok_of_axis ha).mpr (h.perm hperm)

/-- The axis may be counted from the end. -/
theorem concatenate_fromEnd (hzero : 0 ≤ axis) (hrank : axis < Operation.firstRank inputs) :
    concatenate inputs (axis - Operation.firstRank inputs) = concatenate inputs axis := by
  cases inputs with
  | nil => rfl
  | cons first rest =>
    have hrank : axis < first.rank := hrank
    obtain ⟨a, rfl⟩ := Int.eq_ofNat_of_zero_le hzero
    have hend : normalizeAxis ((a : Int) - first.rank) first.rank = .ok a :=
      normalizeAxis_eq_ok.mpr ⟨by rw [fromFront, if_pos (by omega)]; omega, by omega⟩
    have hfront : normalizeAxis (a : Int) first.rank = .ok a := normalizeAxis_natCast (by omega)
    show concatenate _ ((a : Int) - first.rank) = _
    simp only [concatenate, hend, hfront]

end Regrouping

/-- A concatenation is accepted when its inputs can be joined along the axis.  They may be
concatenated in blocks and in any order: what is accepted is the same, and so is the result.  Its
elements are those of all inputs, and the axis may be counted from either end. -/
theorem concatenate_regrouped (axis : Int) :
    (∀ inputs s, concatenate inputs axis = .ok s ↔
      ∃ a : Nat, fromFront axis s.rank = a ∧ Joined a inputs s) ∧
    (∀ blocks : List (List Shape), (∀ block ∈ blocks, block ≠ []) →
      ∀ s, concatenate blocks.flatten axis = .ok s ↔
        ∃ parts, blocks.mapM (concatenate · axis) = .ok parts ∧ concatenate parts axis = .ok s) ∧
    (∀ inputs others : List Shape, inputs.Perm others →
      ∀ s, concatenate inputs axis = .ok s ↔ concatenate others axis = .ok s) ∧
    (∀ inputs s, concatenate inputs axis = .ok s → s.size = (inputs.map Shape.size).sum) ∧
    ∀ inputs, 0 ≤ axis → axis < Operation.firstRank inputs →
      concatenate inputs (axis - Operation.firstRank inputs) = concatenate inputs axis := by
  refine ⟨fun inputs s => concatenate_eq_ok, fun blocks hblocks s => concatenate_flatten hblocks,
    ?_, ?_, fun inputs hzero hrank => concatenate_fromEnd hzero hrank⟩
  · intro inputs others hperm s
    exact ⟨concatenate_perm hperm, concatenate_perm hperm.symm⟩
  · intro inputs s h
    obtain ⟨a, _, h⟩ := concatenate_eq_ok.mp h
    exact h.size_eq

/-- Four matrices, one of them without rows: in blocks of one and three, in another order, and with
the axis counted from the end. -/
theorem concatenate_regrouped_rows :
    let matrix (rows : Nat) := Shape.of (.real .f32) [rows, 3]
    (∀ block ∈ [[matrix 2], [matrix 0, matrix 4, matrix 1]], block ≠ []) ∧
      [matrix 2, matrix 0, matrix 4, matrix 1].Perm [matrix 4, matrix 1, matrix 2, matrix 0] ∧
      concatenate [matrix 2, matrix 5] 0 = .ok (matrix 7) ∧
      concatenate [matrix 2, matrix 0, matrix 4, matrix 1] 0 = .ok (matrix 7) ∧
      concatenate [matrix 4, matrix 1, matrix 2, matrix 0] 0 = .ok (matrix 7) ∧
      concatenate [matrix 4, matrix 1, matrix 2, matrix 0] (-2) = .ok (matrix 7) ∧
      (matrix 7).size = 21 := by
  intro matrix
  have hblocks : ∀ block ∈ [[matrix 2], [matrix 0, matrix 4, matrix 1]], block ≠ [] := by decide
  have hperm : [matrix 2, matrix 0, matrix 4, matrix 1].Perm
    [matrix 4, matrix 1, matrix 2, matrix 0] := by decide
  obtain ⟨_, hflatten, horder, hsize, hend⟩ := concatenate_regrouped 0
  have htwo : concatenate [matrix 2, matrix 5] 0 = .ok (matrix 7) := by decide
  have hall : concatenate [matrix 2, matrix 0, matrix 4, matrix 1] 0 = .ok (matrix 7) :=
    (hflatten _ hblocks _).mpr ⟨[matrix 2, matrix 5], by decide, htwo⟩
  have hother := (horder _ _ hperm _).mp hall
  have hnegative := (hend _ (by decide) (by decide)).trans hother
  exact ⟨hblocks, hperm, htwo, hall, hother, hnegative, hsize _ _ htwo⟩

end Inference

end TensorProgram
