import TensorProgram.Inference.Fourier
import TensorProgram.Proofs.Extents
import TensorProgram.Proofs.Faults

/-!
# Transforms that undo each other

A transform asks for the extents of the last axes and leaves all axes but the last one alone.  What
it does to the last axis and to the element type is the same for a transform and its inverse, with
the sides exchanged, `resizes_inverse` and `retypes_inverse`.  `fft_eq_ok` says that a transform is
accepted exactly when it does this, hence the inverse transform gives back the operand.
-/

namespace TensorProgram

namespace ElementType

theorem realPart?_eq_some {s t : ElementType} :
    s.realPart? = some t ↔ ∃ p, s = .complex p ∧ t = .real p.part := by
  cases s <;> simp [realPart?, eq_comm]

/-- A complex type belongs to the type of its parts. -/
theorem complexOf?_eq_some {s t : ElementType} :
    s.complexOf? = some t ↔ ∃ p : ComplexPrecision, s = .real p.part ∧ t = .complex p := by
  constructor
  · intro h
    unfold complexOf? at h
    split at h
    · exact ⟨.single, rfl, (Option.some.inj h).symm⟩
    · exact ⟨.double, rfl, (Option.some.inj h).symm⟩
    · cases h
  · intro h
    obtain ⟨p, rfl, rfl⟩ := h
    cases p <;> rfl

end ElementType

/-- The transform that undoes another one. -/
def FftType.inverse : FftType → FftType
  | .fft => .ifft
  | .ifft => .fft
  | .rfft => .irfft
  | .irfft => .rfft

@[simp] theorem FftType.inverse_inverse (type : FftType) : type.inverse.inverse = type := by
  cases type <;> rfl

namespace Inference

/-- The spectrum of real data of a length has an axis of the extent. -/
def Halves (length extent : Nat) : Prop :=
  extent = length / 2 + 1 ∧ extent < Size.limit

/-- A transform of a length turns an axis of one extent into one of another. -/
def Resizes (type : FftType) (length before after : Nat) : Prop :=
  match type with
  | .fft | .ifft => before = length ∧ after = length
  | .rfft => before = length ∧ Halves length after
  | .irfft => Halves length before ∧ after = length

/-- A transform turns elements of one type into elements of another. -/
def Retypes (type : FftType) (before after : ElementType) : Prop :=
  match type with
  | .fft | .ifft => ∃ p, before = .complex p ∧ after = .complex p
  | .rfft => ∃ p : ComplexPrecision, before = .real p.part ∧ after = .complex p
  | .irfft => ∃ p : ComplexPrecision, before = .complex p ∧ after = .real p.part

/-- A transform over the last axes, of which it changes the last one. -/
structure Transforms (type : FftType) (lengths : List Nat) (x y : Shape) : Prop where
  count : lengths.length ≤ transformRankLimit
  types : ∃ s t, x.elementType? = some s ∧ y.elementType? = some t ∧ Retypes type s t
  axes : ∃ outer inner length before after, lengths = inner ++ [length] ∧
    x.dimensions = outer ++ (inner ++ [before]) ∧ y.dimensions = outer ++ (inner ++ [after]) ∧
    Resizes type length before after

variable {type : FftType} {lengths : List Nat} {x y : Shape}

/-! ## The last axis and the element type -/

theorem halfSpectrum_eq_ok {length extent : Nat} :
    halfSpectrum length = .ok extent ↔ Halves length extent := by
  simp only [halfSpectrum, Size.add, bind_eq_ok, Size.div_eq_ok, Size.bounded_eq_ok, Halves]
  constructor
  · intro h
    obtain ⟨_, ⟨_, rfl⟩, hlimit, rfl⟩ := h
    exact ⟨rfl, hlimit⟩
  · intro h
    obtain ⟨rfl, hlimit⟩ := h
    exact ⟨length / 2, ⟨by omega, rfl⟩, hlimit, rfl⟩

theorem resizes_inverse {length before after : Nat} :
    Resizes type.inverse length after before ↔ Resizes type length before after := by
  cases type <;> exact and_comm

theorem retypes_inverse {s t : ElementType} :
    Retypes type.inverse t s ↔ Retypes type s t := by
  cases type <;> exact exists_congr fun _ => and_comm

theorem transformedElementType_eq_ok {s t : ElementType} :
    transformedElementType type s = .ok t ↔ Retypes type s t := by
  have hcomplex : (if s.isComplex then (.ok s : Check ElementType)
      else .error (.unsupportedElementType s .complex)) = .ok t ↔
        ∃ p, s = .complex p ∧ t = .complex p := by
    cases s <;> simp [ElementType.isComplex, eq_comm]
  cases type with
  | fft => exact hcomplex
  | ifft => exact hcomplex
  | rfft =>
    rw [Retypes, ← ElementType.complexOf?_eq_some, transformedElementType]
    cases s.complexOf? <;> simp
  | irfft =>
    rw [Retypes, ← ElementType.realPart?_eq_some, transformedElementType]
    cases s.realPart? <;> simp

/-! ## Acceptance -/

section Axes

variable {length extent : Nat} {inner before : List Nat}

/-- Before the last axis a transform asks for its lengths. -/
theorem expectedExtent_false : expectedExtent type false length = .ok length := by
  simp [expectedExtent]

/-- The last axis has the extent that the transform turns into another one. -/
theorem expectedExtent_true_eq_ok :
    expectedExtent type true length = .ok extent ↔
      if type = .irfft then Halves length extent else extent = length := by
  unfold expectedExtent
  split_ifs with h htype htype
  · exact halfSpectrum_eq_ok
  · exact absurd h.1 htype
  · exact absurd ⟨htype, rfl⟩ h
  · rw [Except.ok.injEq, eq_comm]

/-- All axes are asked for their extents one by one. -/
theorem forM_expectedExtent (type : FftType) (extent length : Nat)
    (hlength : before.length = inner.length) (otherwise : Nat → ShapeError.Cause) :
    (((before ++ [extent]).zip (inner ++ [length])).zipIdx.forM
        fun ((extent, length), position) => do
          require (extent == (← expectedExtent type (position == inner.length) length))
            (otherwise length)) = .ok () ↔
      before = inner ∧ expectedExtent type true length = .ok extent := by
  have hzip : (before.zip inner).length = inner.length := by
    rw [List.length_zip, hlength, Nat.min_self]
  have hinner : (∀ entry ∈ (before.zip inner).zipIdx,
      ∃ expected, expectedExtent type (entry.2 == inner.length) entry.1.2 = .ok expected ∧
        entry.1.1 = expected) ↔ before = inner := by
    rw [← List.forall₂_eq_eq_eq, List.forall₂_iff_zip, and_iff_right hlength]
    constructor
    · intro h m n hmem
      obtain ⟨i, hi⟩ := List.mem_iff_getElem?.mp hmem
      have hentry : ((m, n), i) ∈ (before.zip inner).zipIdx := List.mem_zipIdx_iff_getElem?.mpr hi
      have hlt : i < (before.zip inner).length := lt_of_mem_zipIdx hentry
      obtain ⟨expected, hexpected, hm⟩ := h _ hentry
      rw [beq_false_of_ne (by omega), expectedExtent_false, Except.ok.injEq] at hexpected
      exact hm.trans hexpected.symm
    · intro h entry hentry
      have hlt : entry.2 < (before.zip inner).length := lt_of_mem_zipIdx hentry
      rw [beq_false_of_ne (by omega), expectedExtent_false]
      exact ⟨_, rfl, h (List.fst_mem_of_mem_zipIdx hentry)⟩
  rw [List.zip_append hlength, List.zipIdx_append, forM_eq_ok, List.forall_mem_append]
  simp only [bind_eq_ok, require_eq_ok, beq_iff_eq, hinner, hzip]
  simp

end Axes

section Rule

variable {length extent : Nat} {inner before outer : List Nat}

theorem entry_concat (xs : List Nat) (n : Nat) : entry (xs ++ [n]) xs.length = .ok n :=
  entry_eq_ok.mpr List.getElem?_concat_length

theorem replaceEntry_concat (xs : List Nat) (m n : Nat) :
    replaceEntry (xs ++ [m]) xs.length n = .ok (xs ++ [n]) :=
  replaceEntry_eq_ok.mpr ⟨by simp, by simp⟩

/-- A transform that is accepted has as many axes as lengths, and at least one. -/
theorem exists_axes_of_fft (h : fft x type lengths = .ok y) :
    ∃ outer before extent inner length, lengths = inner ++ [length] ∧
      before.length = inner.length ∧ x.dimensions = outer ++ before ++ [extent] := by
  simp only [fft, bind_eq_ok, require_eq_ok, Bool.and_eq_true, decide_eq_true_eq] at h
  obtain ⟨_, _, _, ⟨hsome, _⟩, _, hrank, _⟩ := h
  have hlengths : lengths ≠ [] := by simpa using hsome
  have hpositive : 0 < lengths.length := List.length_pos_of_ne_nil hlengths
  let split := x.dimensions.length - lengths.length
  have hdrop : (x.dimensions.drop split).length = lengths.length := by
    rw [List.length_drop]
    unfold Shape.rank at hrank
    omega
  have haxes : x.dimensions.drop split ≠ [] := by
    apply List.ne_nil_of_length_pos
    omega
  refine ⟨x.dimensions.take split, (x.dimensions.drop split).dropLast,
    (x.dimensions.drop split).getLast haxes, lengths.dropLast, lengths.getLast hlengths,
    (List.dropLast_append_getLast hlengths).symm, ?_, ?_⟩
  · rw [List.length_dropLast, List.length_dropLast, hdrop]
  · rw [List.append_assoc, List.dropLast_append_getLast, List.take_append_drop]

theorem fft_concat_eq_ok (hlength : before.length = inner.length)
    (hx : x.dimensions = outer ++ before ++ [extent]) :
    fft x type (inner ++ [length]) = .ok y ↔
      (inner ++ [length]).length ≤ transformRankLimit ∧
        (∃ s t, x.elementType? = some s ∧ y.elementType? = some t ∧ Retypes type s t) ∧
        before = inner ∧ ∃ after, Resizes type length extent after ∧
          y.dimensions = outer ++ before ++ [after] := by
  have hrank : x.rank = (outer ++ before).length + 1 := by
    simp [Shape.rank, hx, Nat.add_assoc]
  have hlast : Size.sub (inner ++ [length]).length 1 = .ok inner.length :=
    Size.sub_eq_ok.mpr (by simp)
  have hlastAxis : Size.sub x.rank 1 = .ok (outer ++ before).length :=
    Size.sub_eq_ok.mpr (by simp [hrank])
  have hfits : (inner ++ [length]).length ≤ x.rank := by
    simp [hrank, hlength]
  have hskipped : Size.sub x.rank (inner ++ [length]).length = .ok outer.length :=
    Size.sub_eq_ok.mpr ⟨hfits, by simp [hrank, hlength]⟩
  have hdrop : (outer ++ before ++ [extent]).drop outer.length = before ++ [extent] := by
    rw [List.append_assoc, List.drop_left]
  -- what is left of the rule is the extent of the last axis
  have hresult {t : ElementType} : (match type with
      | .fft | .ifft => pure (Shape.of t (outer ++ before ++ [extent]))
      | .rfft => do
        let after ← halfSpectrum length
        pure (Shape.of t (outer ++ before ++ [after]))
      | .irfft => pure (Shape.of t (outer ++ before ++ [length]))) =
        (Except.ok y : Check Shape) ∧ expectedExtent type true length = .ok extent ↔
      y.elementType? = some t ∧ ∃ after, Resizes type length extent after ∧
          y.dimensions = outer ++ before ++ [after] := by
    rw [expectedExtent_true_eq_ok]
    cases type with
    | fft | ifft =>
      simp only [pure_eq_ok, Except.ok.injEq, of_eq_iff, Resizes, reduceCtorEq, if_false]
      grind
    | rfft =>
      simp only [bind_eq_ok, halfSpectrum_eq_ok, pure_eq_ok, Except.ok.injEq, of_eq_iff, Resizes,
        reduceCtorEq, if_false]
      grind
    | irfft =>
      simp only [pure_eq_ok, Except.ok.injEq, of_eq_iff, Resizes, if_true]
      grind
  have hextents := forM_expectedExtent type extent length hlength fun n =>
    .invalidParameter "fft_length" (.transformLengthMismatch n x)
  unfold fft
  simp only [hlast, hlastAxis, hskipped, hdrop, ok_bind, bind_eq_ok, elementType_eq_ok,
    require_eq_ok, transformedElementType_eq_ok, hx, entry_concat, replaceEntry_concat]
  constructor
  · intro h
    obtain ⟨s, hs, _, hcount, _, _, t, ht, _, hall, hafter⟩ := h
    obtain ⟨hbefore, hexpected⟩ := hextents.mp hall
    obtain ⟨hy, hafter⟩ := hresult.mp ⟨hafter, hexpected⟩
    exact ⟨by simpa using hcount, ⟨s, t, hs, hy, ht⟩, hbefore, hafter⟩
  · intro h
    obtain ⟨hcount, ⟨s, t, hs, hy, ht⟩, hbefore, hafter⟩ := h
    obtain ⟨hafter, hexpected⟩ := hresult.mpr ⟨hy, hafter⟩
    exact ⟨s, hs, (), by simpa using hcount, (), by simpa using hfits, t, ht, (),
      hextents.mpr ⟨hbefore, hexpected⟩, hafter⟩

/-- A transform is accepted when it changes the last axis and the element type as it should. -/
theorem fft_eq_ok : fft x type lengths = .ok y ↔ Transforms type lengths x y := by
  constructor
  · intro h
    obtain ⟨outer, before, extent, inner, length, rfl, hlength, hx⟩ := exists_axes_of_fft h
    obtain ⟨hcount, htypes, rfl, after, hresizes, hy⟩ := (fft_concat_eq_ok hlength hx).mp h
    rw [List.append_assoc] at hx hy
    exact ⟨hcount, htypes, outer, before, length, extent, after, rfl, hx, hy, hresizes⟩
  · intro h
    obtain ⟨hcount, htypes, outer, inner, length, before, after, rfl, hx, hy, hresizes⟩ := h
    rw [← List.append_assoc] at hx hy
    exact (fft_concat_eq_ok rfl hx).mpr ⟨hcount, htypes, rfl, after, hresizes, hy⟩

theorem Transforms.inverse (h : Transforms type lengths x y) :
    Transforms type.inverse lengths y x := by
  obtain ⟨hcount, ⟨s, t, hs, ht, htypes⟩, outer, inner, length, before, after, hlengths, hx, hy,
    hresizes⟩ := h
  exact ⟨hcount, ⟨t, s, ht, hs, retypes_inverse.mpr htypes⟩, outer, inner, length, after, before,
    hlengths, hy, hx, resizes_inverse.mpr hresizes⟩

/-- What a transform does, its inverse does with the sides exchanged. -/
theorem transforms_inverse : Transforms type.inverse lengths y x ↔ Transforms type lengths x y := by
  constructor
  · intro h
    have hback := h.inverse
    rwa [FftType.inverse_inverse] at hback
  · exact Transforms.inverse

/-- A transform of complex data keeps the shape. -/
theorem Transforms.eq_of_fft (h : Transforms .fft lengths x y) : y = x := by
  obtain ⟨_, ⟨_, _, hs, ht, p, rfl, rfl⟩, outer, inner, length, _, _, _, hx, hy, rfl, rfl⟩ := h
  cases x
  cases y
  simp only [Shape.mk.injEq]
  exact ⟨ht.trans hs.symm, hy.trans hx.symm⟩

end Rule

/-- Transforms of real data and transforms back to real data undo each other.  The two transforms
of complex data are accepted for the same operands, and give back the shape of the operand. -/
theorem fft_inverts (x y : Shape) (lengths : List Nat) :
    (fft x .rfft lengths = .ok y ↔ fft y .irfft lengths = .ok x) ∧
      (fft x .fft lengths = .ok y ↔ fft x .ifft lengths = .ok y) ∧
      (fft x .fft lengths = .ok y ↔ y = x ∧ Transforms .fft lengths x x) ∧
      ∀ type, fft x type lengths = .ok y ↔ Transforms type lengths x y := by
  refine ⟨?_, ?_, ?_, fun type => fft_eq_ok⟩
  · rw [fft_eq_ok, fft_eq_ok]
    exact transforms_inverse.symm
  · rw [fft_eq_ok, fft_eq_ok]
    -- what a transform of complex data does to an axis does not depend on its direction
    exact ⟨fun h => ⟨h.count, h.types, h.axes⟩, fun h => ⟨h.count, h.types, h.axes⟩⟩
  · rw [fft_eq_ok]
    constructor
    · intro h
      obtain rfl := h.eq_of_fft
      exact ⟨rfl, h⟩
    · intro h
      rw [h.1]
      exact h.2

/-- The lengths seven and six have spectra of one extent, and only the length that the data had
brings them back. -/
example :
    let complex := Shape.of (.complex .single) [2, 4]
    fft (.of (.real .f32) [2, 7]) .rfft [7] = .ok complex ∧
      fft complex .irfft [7] = .ok (.of (.real .f32) [2, 7]) ∧
      fft complex .irfft [6] = .ok (.of (.real .f32) [2, 6]) := by
  decide

end Inference

end TensorProgram
