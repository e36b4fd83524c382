import TensorProgram.Proofs.Literals

/-!
# Ranges of literals

Integers of all widths are stored in 64 bits, and elements are accepted whatever their values are:
`Literal.ofElements_congr`.  What is stored is therefore in the range of the widest type of its
kind.  It need not be in the range of the type of the shape: the elements of all literals of a
shape are, if and only if the type is the widest of its kind or there are no elements,
`Literal.all_fit_iff`.

Literals that are made of native numbers have the element type of their numbers and are in its
range.  `Literal.integers_in_range` puts this together.
-/

namespace TensorProgram

open Inference

/-! ## Integers that are stored -/

namespace Elements

/-- The integers are those that 64 bits hold, with a sign or without one. -/
def Stored (e : Elements) : Prop :=
  e.Fit e.type

instance (x : Int) (t : ElementType) : Decidable (t.Holds x) :=
  match t with
  | .signed w => inferInstanceAs (Decidable (-(Nat.pow 2 (w.bits - 1) : Int) ≤ x ∧
      x < (Nat.pow 2 (w.bits - 1) : Int)))
  | .unsigned w => inferInstanceAs (Decidable (0 ≤ x ∧ x < (Nat.pow 2 w.bits : Int)))
  | .boolean | .real _ | .complex _ => .isTrue trivial

instance (e : Elements) (t : ElementType) : Decidable (e.Fit t) :=
  inferInstanceAs (Decidable (∀ x ∈ e.integers, t.Holds x))

instance (e : Elements) : Decidable e.Stored :=
  inferInstanceAs (Decidable (e.Fit e.type))

theorem integers_eq_nil {e : Elements} (h : e.length = 0) : e.integers = [] := by
  cases e with
  | signed values => exact List.length_eq_zero_iff.mp h
  | unsigned values => rw [integers, List.length_eq_zero_iff.mp h, List.map_nil]
  | _ => rfl

/-- As many elements as wanted that are stored but not in the range of a narrower type: the
greatest integer that the storage holds. -/
theorem exists_stored_of_narrow {t : ElementType} (h : t.widest ≠ t) {n : Nat} (hn : n ≠ 0) :
    ∃ e : Elements, e.type = t.widest ∧ e.length = n ∧ e.Stored ∧ ¬ e.Fit t := by
  have hmem {α : Type} (a : α) : a ∈ List.replicate n a := List.mem_replicate.mpr ⟨hn, rfl⟩
  cases t with
  | signed w =>
    refine ⟨.signed (List.replicate n 0x7FFFFFFFFFFFFFFF), rfl, List.length_replicate, ?_,
      fun hfit => ?_⟩
    · intro x hx
      rw [List.eq_of_mem_replicate hx]
      show (ElementType.signed .w64).Holds 0x7FFFFFFFFFFFFFFF
      decide
    · have hrange := hfit _ (hmem _)
      cases w with
      | w64 => exact h rfl
      | _ => exact absurd hrange (by decide)
  | unsigned w =>
    refine ⟨.unsigned (List.replicate n 0xFFFFFFFFFFFFFFFF), rfl, List.length_replicate, ?_,
      fun hfit => ?_⟩
    · intro x hx
      obtain ⟨a, ha, rfl⟩ := List.mem_map.mp hx
      rw [List.eq_of_mem_replicate ha]
      show (ElementType.unsigned .w64).Holds ((0xFFFFFFFFFFFFFFFF : Nat) : Int)
      decide
    · have hrange := hfit _ (List.mem_map_of_mem (hmem _))
      cases w with
      | w64 => exact h rfl
      | _ => exact absurd hrange (by decide)
  | boolean | real f | complex p => exact absurd rfl h

end Elements

namespace Literal

variable {shape : Shape} {e d : Elements} {l : Literal} {α : Type} {t : ElementType} {n : Nat}

/-! ## Literals of elements -/

/-- All integers of the literal are in the range of its element type. -/
def Fits (l : Literal) : Prop :=
  ∀ t, l.shape.elementType? = some t → l.elements.Fit t

/-- Elements are accepted together with all others that are stored alike and are as many. -/
theorem ofElements_congr (h : ofElements shape e = .ok l) (htype : d.type = e.type)
    (hlength : d.length = e.length) : ofElements shape d = .ok ⟨shape, d⟩ := by
  obtain ⟨hstored, hsize, _⟩ := ofElements_eq_ok.mp h
  exact ofElements_eq_ok.mpr ⟨htype ▸ hstored, hlength ▸ hsize, rfl⟩

theorem fit_widest (h : ofElements shape e = .ok l) (hstored : e.Stored)
    (ht : l.shape.elementType? = some t) : l.elements.Fit t.widest := by
  obtain ⟨⟨u, hu, htype⟩, _, rfl⟩ := ofElements_eq_ok.mp h
  obtain rfl : u = t := Option.some.inj (hu.symm.trans ht)
  rw [← htype]
  exact hstored

/-- The literals of a shape are all in the range of its type if the type is the widest of its kind
or if they have no elements, and only then. -/
theorem all_fit_iff (ht : shape.elementType? = some t)
    (hsize : Size.product shape.dimensions = .ok n) :
    (∀ e l, e.Stored → ofElements shape e = .ok l → l.Fits) ↔ t.widest = t ∨ n = 0 := by
  constructor
  · intro hall
    by_contra hnarrow
    rw [not_or] at hnarrow
    obtain ⟨e, htype, hlength, hstored, hfit⟩ :=
      Elements.exists_stored_of_narrow hnarrow.1 hnarrow.2
    have h : ofElements shape e = .ok ⟨shape, e⟩ :=
      ofElements_eq_ok.mpr ⟨⟨t, ht, htype⟩, by rw [hsize, hlength], rfl⟩
    exact hfit (hall e _ hstored h t ht)
  · intro hwide e l hstored h u hu
    obtain ⟨_, hlength, rfl⟩ := ofElements_eq_ok.mp h
    obtain rfl : t = u := Option.some.inj (ht.symm.trans hu)
    rcases hwide with hwide | rfl
    · rw [← hwide]
      exact fit_widest h hstored hu
    · have hnone := Elements.integers_eq_nil (Except.ok.inj (hlength.symm.trans hsize))
      rw [Elements.Fit, hnone]
      exact fun x hx => nomatch hx

/-- A byte is not asked to be in the range of bytes. -/
theorem byte_out_of_range : ¬ ∀ (shape : Shape) (e : Elements) (l : Literal),
    e.Stored → ofElements shape e = .ok l → l.Fits := by
  intro hall
  have haccepted : ofElements (.of (.signed .w8) [1]) (.signed [300]) =
      .ok ⟨.of (.signed .w8) [1], .signed [300]⟩ := by decide
  have hfits := hall _ _ _ (by decide) haccepted (.signed .w8) rfl
  exact absurd hfits (by decide)

/-! ## Literals of native numbers -/

theorem fits_scalar (n : NativeType α) (x : α) : (scalar n x).Fits := by
  intro t ht
  obtain rfl : n.elementType = t := Option.some.inj ht
  exact n.fit [x]

theorem fits_of_native {n : NativeType α} {dimensions : List Nat} {xs : List α}
    (h : ofNative n dimensions xs = .ok l) : l.Fits := by
  obtain ⟨_, _, rfl⟩ := ofElements_eq_ok.mp h
  intro t ht
  obtain rfl : n.elementType = t := Option.some.inj ht
  exact n.fit xs

/-- Of literals that are made of elements, the integers are in the range of the widest type of
their kind, and which integers of that range they are makes no difference to acceptance.  So they
are always in the range of the type of the shape only if this is that widest type, or if there are
no elements.  Literals that are made of native numbers are always in the range of their type. -/
theorem integers_in_range :
    (∀ {shape : Shape} {e : Elements} {l : Literal}, ofElements shape e = .ok l → e.Stored →
      (∀ t, l.shape.elementType? = some t → l.elements.Fit t.widest) ∧
      ∀ d : Elements, d.type = e.type → d.length = e.length →
        ofElements shape d = .ok ⟨shape, d⟩) ∧
    (∀ {shape : Shape} {t : ElementType} {n : Nat}, shape.elementType? = some t →
      Size.product shape.dimensions = .ok n →
      ((∀ e l, e.Stored → ofElements shape e = .ok l → l.Fits) ↔ t.widest = t ∨ n = 0)) ∧
    (∀ {α : Type} (n : NativeType α) {dimensions : List Nat} {xs : List α} {l : Literal},
      ofNative n dimensions xs = .ok l → l.Fits) ∧
    ∀ {α : Type} (n : NativeType α) (x : α), (scalar n x).Fits := by
  refine ⟨fun {shape e l} h hstored => ⟨fun t ht => fit_widest h hstored ht, ?_⟩, ?_, ?_, ?_⟩
  · intro d htype hlength
    exact ofElements_congr h htype hlength
  · intro shape t n ht hsize
    exact all_fit_iff ht hsize
  · intro α n dimensions xs l h
    exact fits_of_native h
  · intro α n x
    exact fits_scalar n x

/-- Two bytes, made of native numbers and of stored ones, and two integers of 64 bits. -/
theorem integers_in_range_pairs :
    (∃ l, ofNative .int8 [2] [-128, 127] = .ok l ∧ l.Fits) ∧
      (∃ l, ofElements (.of (.signed .w8) [2]) (.signed [300, 127]) = .ok l ∧
        l.elements.Fit (.signed .w64)) ∧
      ¬ (∀ e l, e.Stored → ofElements (.of (.signed .w8) [2]) e = .ok l → l.Fits) ∧
      ∀ e l, e.Stored → ofElements (.of (.signed .w64) [2]) e = .ok l → l.Fits := by
  obtain ⟨hstored, hshapes, hnative, _⟩ := integers_in_range
  have hbytes : ofNative .int8 [2] [-128, 127] =
      .ok ⟨.of (.signed .w8) [2], .signed [-128, 127]⟩ := by decide
  have haccepted : ofElements (.of (.signed .w8) [2]) (.signed [300, 127]) =
      .ok ⟨.of (.signed .w8) [2], .signed [300, 127]⟩ := by decide
  refine ⟨⟨_, hbytes, hnative .int8 hbytes⟩,
    ⟨_, haccepted, (hstored haccepted (by decide)).1 _ rfl⟩, ?_, ?_⟩
  · rw [hshapes rfl rfl]
    decide
  · rw [hshapes rfl rfl]
    decide

end Literal

end TensorProgram
