import TensorProgram.Literal
import TensorProgram.Proofs.Checks
import TensorProgram.Proofs.Extents

/-!
# Literals that can be made

Literals are made of elements, `Literal.ofElements`, or of native numbers.  Elements are accepted
for a shape if they are stored like elements of its type and fill it, and nothing else is asked of
them: `Literal.ofElements_eq_ok`.  How elements of a type are stored depends on its kind and not on
the width of integers, `Elements.store_iff`.

All literals that can be made have what acceptance asks for, `Literal.Made.sound`.
-/

namespace TensorProgram

/-! ## Storage -/

/-- The widest type whose elements are stored like those of the type. -/
def ElementType.widest : ElementType → ElementType
  | signed _ => signed .w64
  | unsigned _ => unsigned .w64
  | t => t

namespace Elements

/-- The widest type whose elements are stored in this way. -/
def type : Elements → ElementType
  | boolean _ => .boolean
  | signed _ => .signed .w64
  | unsigned _ => .unsigned .w64
  | float16 _ => .real .f16
  | bfloat16 _ => .real .bf16
  | float32 _ => .real .f32
  | float64 _ => .real .f64
  | complex64 _ => .complex .single
  | complex128 _ => .complex .double

theorem store_iff {e : Elements} {t : ElementType} : e.store t = true ↔ e.type = t.widest := by
  cases e <;> cases t <;> simp [store, type, ElementType.widest, ElementType.isBoolean,
    ElementType.isSigned, ElementType.isUnsigned] <;> exact eq_comm

end Elements

/-! ## Sizes -/

namespace Inference.Size

variable {extents : List Nat} {m n : Nat}

theorem foldlM_mul_eq (h : extents.foldlM mul m = .ok n) : extents.foldl (· * ·) m = n := by
  induction extents generalizing m with
  | nil => exact Except.ok.inj h
  | cons extent extents ih =>
    obtain ⟨product, hproduct, hrest⟩ := bind_eq_ok.mp h
    obtain ⟨_, rfl⟩ := bounded_eq_ok.mp hproduct
    exact ih hrest

/-- A product of sizes is a size. -/
theorem foldlM_mul_lt (hm : m < limit) (h : extents.foldlM mul m = .ok n) : n < limit := by
  induction extents generalizing m with
  | nil => rwa [← Except.ok.inj h]
  | cons extent extents ih =>
    obtain ⟨product, hproduct, hrest⟩ := bind_eq_ok.mp h
    obtain ⟨hlt, rfl⟩ := bounded_eq_ok.mp hproduct
    exact ih hlt hrest

/-- Without a zero among them, extents are multiplied as long as the product of all is a size. -/
theorem foldlM_mul_of_pos (hpos : 0 ∉ extents) (hlt : m * extents.prod < limit) :
    extents.foldlM mul m = .ok (m * extents.prod) := by
  induction extents generalizing m with
  | nil => rw [List.prod_nil, Nat.mul_one, List.foldlM_nil, pure_eq_ok]
  | cons extent extents ih =>
    rw [List.prod_cons, ← Nat.mul_assoc] at hlt ⊢
    rw [List.mem_cons, not_or] at hpos
    have hrest : 0 < extents.prod := Nat.pos_of_ne_zero fun h => hpos.2 (List.prod_eq_zero_iff.mp h)
    have hstep : m * extent < limit := Nat.lt_of_le_of_lt (Nat.le_mul_of_pos_right _ hrest) hlt
    rw [List.foldlM_cons, mul, bounded_eq_ok.mpr ⟨hstep, rfl⟩, ok_bind]
    exact ih hpos.2 hlt

theorem product_lt (h : product extents = .ok n) : n < limit :=
  foldlM_mul_lt (by decide) h

theorem product_of_pos (hpos : 0 ∉ extents) (hlt : extents.prod < limit) :
    product extents = .ok extents.prod := by
  have h := foldlM_mul_of_pos (m := 1) hpos (by rwa [Nat.one_mul])
  rwa [Nat.one_mul] at h

end Inference.Size

namespace Literal

open Inference

/-! ## Acceptance -/

variable {shape : Shape} {e : Elements} {l : Literal} {α : Type}

/-- Accepted are the elements that are stored like those of the type and fill the shape. -/
theorem ofElements_eq_ok : ofElements shape e = .ok l ↔
    (∃ t, shape.elementType? = some t ∧ e.type = t.widest) ∧
      Size.product shape.dimensions = .ok e.length ∧ l = ⟨shape, e⟩ := by
  simp only [ofElements, mapError_eq_ok, check, bind_eq_ok, require_eq_ok, pure_eq_ok,
    Except.ok.injEq, Elements.store_iff, beq_iff_eq]
  constructor
  · rintro ⟨t, ht, _, htype, size, hsize, _, rfl, rfl⟩
    refine ⟨⟨t, ?_, htype⟩, hsize, rfl⟩
    unfold elementType at ht
    cases hshape : shape.elementType? with
    | none => simp [hshape] at ht
    | some u => simpa [hshape] using ht
  · rintro ⟨⟨t, ht, htype⟩, hsize, rfl⟩
    exact ⟨t, by rw [elementType, ht], (), htype, e.length, hsize, (), rfl, rfl⟩

/-- A single native number fills a shape without axes. -/
theorem ofElements_scalar (n : NativeType α) (x : α) :
    ofElements (.scalar n.elementType) (n.elements [x]) = .ok (scalar n x) := by
  refine ofElements_eq_ok.mpr ⟨⟨n.elementType, rfl, Elements.store_iff.mp (n.stored [x])⟩, ?_, rfl⟩
  rw [n.length_elements]
  rfl

/-- Literals as they can be made. -/
inductive Made : Literal → Prop
  | elements {shape : Shape} {e : Elements} {l : Literal} (h : ofElements shape e = .ok l) : Made l
  | native {α : Type} (n : NativeType α) {dimensions : List Nat} {xs : List α} {l : Literal}
      (h : ofNative n dimensions xs = .ok l) : Made l
  | scalar {α : Type} (n : NativeType α) (x : α) : Made (Literal.scalar n x)

/-- The elements are stored like those of the type and are as many as the shape has. -/
structure Sound (l : Literal) : Prop where
  stored : ∃ t, l.shape.elementType? = some t ∧ l.elements.type = t.widest
  counted : Size.product l.shape.dimensions = .ok l.elements.length

theorem Sound.filled (h : l.Sound) : l.elements.length = l.shape.size :=
  (Size.foldlM_mul_eq h.counted).symm

theorem sound_of_ofElements (h : ofElements shape e = .ok l) : l.Sound := by
  obtain ⟨hstored, hsize, rfl⟩ := ofElements_eq_ok.mp h
  exact ⟨hstored, hsize⟩

theorem Made.sound (h : l.Made) : l.Sound := by
  cases h with
  | elements h => exact sound_of_ofElements h
  | native n h => exact sound_of_ofElements h
  | scalar n x => exact sound_of_ofElements (ofElements_scalar n x)

end Literal

end TensorProgram
