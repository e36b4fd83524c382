import TensorProgram.Proofs.Literals
import TensorProgram.Proofs.RecordTexts

/-!
# Reading elements

The text of a number is made of letters, digits, points and signs: `isNumeral_text` says so of the
real formats.  So the text of an element is enclosed, also that of a complex number, which has a
comma inside of its parentheses.

Elements that are stored alike have one `Elements.type`, and then they can be read off their texts,
`Elements.texts_injective`.  That the texts of real numbers tell their bits is asked of the numbers
that occur, `TextsTell`.
-/

namespace TensorProgram

/-! ## Numerals -/

/-- A letter, a digit, a point or a sign. -/
def isNumeral (c : Char) : Bool :=
  c.isAlphanum || c == '.' || c == '-'

theorem isPlain_of_isNumeral {c : Char} (h : isNumeral c = true) : isPlain c = true := by
  simp only [isPlain, isOpening, isClosing, Bool.and_eq_true, Bool.not_eq_true', bne_iff_ne,
    Bool.or_eq_false_iff, beq_eq_false_iff_ne]
  refine ⟨⟨⟨?_, ?_⟩, ?_, ?_⟩, ?_⟩ <;> rintro rfl <;> revert h <;> decide

theorem isNumeral_of_isDigit {c : Char} (h : c.isDigit = true) : isNumeral c = true := by
  simp [isNumeral, Char.isAlphanum, h]

/-- The text of a number. -/
def Numeral (text : List Char) : Prop :=
  ∀ c ∈ text, isNumeral c = true

instance (text : List Char) : Decidable (Numeral text) :=
  decidable_of_iff (text.all isNumeral = true) List.all_eq_true

namespace Numeral

variable {x y : List Char}

theorem append (hx : Numeral x) (hy : Numeral y) : Numeral (x ++ y) :=
  List.forall_mem_append.mpr ⟨hx, hy⟩

theorem cons {c : Char} (hc : isNumeral c = true) (hx : Numeral x) : Numeral (c :: x) :=
  List.forall_mem_cons.mpr ⟨hc, hx⟩

theorem mono (hx : Numeral x) (h : y ⊆ x) : Numeral y :=
  fun c hc => hx c (h hc)

theorem replicate_zero (n : Nat) : Numeral (List.replicate n '0') := by
  intro c hc
  rw [List.eq_of_mem_replicate hc]
  decide

theorem toDigits (n : Nat) : Numeral (Nat.toDigits 10 n) := fun _ hc =>
  isNumeral_of_isDigit (Nat.isDigit_of_mem_toDigits (by decide) (by decide) hc)

theorem toString_nat (n : Nat) : Numeral (toString n).toList := fun _ hc =>
  isNumeral_of_isDigit (isDigit_of_mem_toString hc)

theorem toString_int (x : Int) : Numeral (toString x).toList := by
  rw [IntText.toString_eq]
  split_ifs
  · rw [String.toList_append]
    exact .cons (by decide) (toString_nat _)
  · exact toString_nat _

theorem enclosed {text : String} (h : Numeral text.toList) : Enclosed text :=
  .of_plain (List.all_eq_true.mpr fun c hc => isPlain_of_isNumeral (h c hc))

/-- No numeral has a character of another kind. -/
theorem notMem {c : Char} (h : Numeral x) (hc : isNumeral c = false) : c ∉ x := by
  intro hmem
  rw [h c hmem] at hc
  cases hc

end Numeral

/-! ## Real numbers -/

namespace Decimal

theorem isNumeral_positional {digits : List Char} (h : Numeral digits) (whole : Int) :
    Numeral (positional digits whole) := by
  unfold positional
  split_ifs
  · exact ((Numeral.append (by decide) (.replicate_zero _)).append h)
  · exact (h.append (.replicate_zero _)).append (by decide)
  · exact (h.mono (List.take_subset _ _)).append (.cons (by decide) (h.mono (List.drop_subset _ _)))

theorem isNumeral_exponential {digits : List Char} (h : Numeral digits) (place : Int) :
    Numeral (exponential digits place) := by
  have hfraction : Numeral (if digits.length ≤ 1 then [] else '.' :: digits.drop 1) := by
    split_ifs
    · exact fun _ hc => nomatch hc
    · exact .cons (by decide) (h.mono (List.drop_subset _ _))
  exact ((h.mono (List.take_subset _ _)).append hfraction).append
    (.cons (by decide) (.toString_int place))

theorem isNumeral_text (range : PositionalRange) (d : Decimal) : Numeral (d.text range) := by
  simp only [text]
  split_ifs
  · decide
  · exact isNumeral_positional (.toDigits _) _
  · exact isNumeral_exponential (.toDigits _) _

theorem isNumeral_withPoint {text : List Char} (h : Numeral text) : Numeral (withPoint text) := by
  unfold withPoint
  split_ifs
  · exact h
  · exact ((h.mono (List.takeWhile_sublist _).subset).append (by decide)).append
      (h.mono (List.dropWhile_sublist _).subset)

end Decimal

namespace RealFormat

theorem isNumeral_bitText (f : RealFormat) (bits : Nat) : Numeral (f.bitText bits) := by
  have hdigit : ∀ n < 16, isNumeral (upperHexDigit n) = true := by decide
  refine .cons (by decide) (.cons (by decide) fun c hc => ?_)
  obtain ⟨i, _, rfl⟩ := List.mem_map.mp hc
  exact hdigit _ (Nat.mod_lt _ (by decide))

theorem isNumeral_signText (f : RealFormat) (bits : Nat) : Numeral (f.signText bits) := by
  unfold signText
  split_ifs <;> decide

theorem isNumeral_plainText (f : RealFormat) (bits : Nat) : Numeral (f.plainText bits) :=
  .append (f.isNumeral_signText bits) (Decimal.isNumeral_text _ _)

theorem isNumeral_doubleText (double : Nat) : Numeral (doubleText double) := by
  unfold doubleText
  split_ifs
  · exact f64.isNumeral_plainText double
  · exact .append (f64.isNumeral_signText double) (by decide)
  · decide

/-- However numbers are converted, their texts are numerals. -/
theorem isNumeral_text [NarrowConversions] (f : RealFormat) (bits : Nat) :
    Numeral (f.text bits).toList := by
  rw [text, String.toList_ofList, finiteText]
  split_ifs
  · exact Decimal.isNumeral_withPoint (f.isNumeral_plainText bits)
  · exact Decimal.isNumeral_withPoint (isNumeral_doubleText _)
  · exact f.isNumeral_bitText bits

end RealFormat

namespace Elements

/-! ## Texts of elements -/

section Texts

variable [NarrowConversions]

/-- The texts of the elements, in order. -/
def texts : Elements → List String
  | boolean values => values.map toString
  | signed values => values.map toString
  | unsigned values => values.map toString
  | float16 values => values.map fun x => RealFormat.f16.text x.toNat
  | bfloat16 values => values.map fun x => RealFormat.bf16.text x.toNat
  | float32 values => values.map fun x => RealFormat.f32.text x.toNat
  | float64 values => values.map fun x => RealFormat.f64.text x.toNat
  | complex64 values => values.map fun (x, y) => complexText .f32 x.toNat y.toNat
  | complex128 values => values.map fun (x, y) => complexText .f64 x.toNat y.toNat

/-- An element is written when there is one at the offset. -/
theorem textAt_eq (e : Elements) (offset : Nat) :
    e.textAt offset = Inference.entry e.texts offset := by
  cases e <;> simp only [texts, Inference.entry_map] <;> rfl

theorem complexText_eq (f : RealFormat) (x y : Nat) :
    (complexText f x y).toList =
      '(' :: ((f.text x).toList ++ ',' :: ' ' :: ((f.text y).toList ++ [')'])) := by
  simp [complexText]

/-- The parts of a complex number can be read off its text. -/
theorem complexText_injective {f : RealFormat} {x y x' y' : Nat}
    (h : complexText f x y = complexText f x' y') :
    f.text x = f.text x' ∧ f.text y = f.text y' := by
  have hcomma (bits : Nat) : ',' ∉ (f.text bits).toList :=
    (f.isNumeral_text bits).notMem (by decide)
  have hlist := congrArg String.toList h
  rw [complexText_eq, complexText_eq, List.cons.injEq] at hlist
  obtain ⟨hx, hrest⟩ := append_inj_of_notMem (hcomma x) (hcomma x') hlist.2
  rw [List.cons.injEq, List.append_cancel_right_eq] at hrest
  exact ⟨String.toList_inj.mp hx, String.toList_inj.mp hrest.2⟩

theorem length_texts (e : Elements) : e.texts.length = e.length := by
  cases e <;> simp [texts, length]

/-- The text of an element can stand in a list, and it does not end a literal. -/
theorem mem_texts {e : Elements} {text : String} (h : text ∈ e.texts) :
    Enclosed text ∧ '>' ∉ text.toList := by
  have hnumeral {text : String} (h : Numeral text.toList) : Enclosed text ∧ '>' ∉ text.toList :=
    ⟨h.enclosed, h.notMem (by decide)⟩
  have hcomplex (f : RealFormat) (x y : Nat) :
      Enclosed (complexText f x y) ∧ '>' ∉ (complexText f x y).toList := by
    refine ⟨.parenthesized (f.isNumeral_text x).enclosed (f.isNumeral_text y).enclosed, ?_⟩
    have hx := (hnumeral (f.isNumeral_text x)).2
    have hy := (hnumeral (f.isNumeral_text y)).2
    simp [complexText_eq, hx, hy]
  cases e with
  | boolean values =>
    obtain ⟨x, _, rfl⟩ := List.mem_map.mp h
    cases x <;> exact hnumeral (by decide)
  | signed values =>
    obtain ⟨x, _, rfl⟩ := List.mem_map.mp h
    exact hnumeral (.toString_int x)
  | unsigned values =>
    obtain ⟨x, _, rfl⟩ := List.mem_map.mp h
    exact hnumeral (.toString_nat x)
  | float16 values | bfloat16 values | float32 values | float64 values =>
    obtain ⟨x, _, rfl⟩ := List.mem_map.mp h
    exact hnumeral (RealFormat.isNumeral_text _ _)
  | complex64 values | complex128 values =>
    obtain ⟨x, _, rfl⟩ := List.mem_map.mp h
    exact hcomplex _ _ _

end Texts

/-! ## Elements and their texts -/

/-- Real numbers of one format. -/
def realsOf {w : Nat} (f : RealFormat) (xs : List (BitVec w)) : List (RealFormat × Nat) :=
  xs.map fun x => (f, x.toNat)

/-- The bits of the real numbers, and of those that are parts of complex ones. -/
def reals : Elements → List (RealFormat × Nat)
  | float16 values => realsOf .f16 values
  | bfloat16 values => realsOf .bf16 values
  | float32 values => realsOf .f32 values
  | float64 values => realsOf .f64 values
  | complex64 values => realsOf .f32 (values.map Prod.fst) ++ realsOf .f32 (values.map Prod.snd)
  | complex128 values => realsOf .f64 (values.map Prod.fst) ++ realsOf .f64 (values.map Prod.snd)
  | _ => []

end Elements

/-- Of the real numbers, those of one format with one text are one number. -/
def TextsTell [NarrowConversions] (reals : List (RealFormat × Nat)) : Prop :=
  ∀ x ∈ reals, ∀ y ∈ reals, x.1 = y.1 → x.1.text x.2 = y.1.text y.2 → x.2 = y.2

instance [NarrowConversions] (reals : List (RealFormat × Nat)) : Decidable (TextsTell reals) :=
  inferInstanceAs (Decidable (∀ x ∈ reals, ∀ y ∈ reals, x.1 = y.1 →
    x.1.text x.2 = y.1.text y.2 → x.2 = y.2))

/-- Lists are equal when their images are, if the function tells their entries apart. -/
theorem eq_of_map_eq {α β : Type} {f : α → β} {xs ys : List α}
    (hf : ∀ x ∈ xs, ∀ y ∈ ys, f x = f y → x = y) (h : xs.map f = ys.map f) : xs = ys := by
  induction xs generalizing ys with
  | nil => exact (List.map_eq_nil_iff.mp h.symm).symm
  | cons x xs ih =>
    cases ys with
    | nil => cases h
    | cons y ys =>
      obtain ⟨hhead, htail⟩ := List.cons.inj h
      rw [hf x List.mem_cons_self y List.mem_cons_self hhead,
        ih (fun x hx y hy => hf x (List.mem_cons_of_mem _ hx) y (List.mem_cons_of_mem _ hy)) htail]

namespace Elements

section Readable

variable [NarrowConversions] {w : Nat} {f : RealFormat} {told : List (RealFormat × Nat)}

theorem eq_of_text {x y : BitVec w} {xs ys : List (BitVec w)} (htell : TextsTell told)
    (hx : x ∈ xs) (hy : y ∈ ys) (hxs : realsOf f xs ⊆ told) (hys : realsOf f ys ⊆ told)
    (h : f.text x.toNat = f.text y.toNat) : x = y :=
  BitVec.eq_of_toNat_eq (htell (f, x.toNat) (hxs (List.mem_map_of_mem hx)) (f, y.toNat)
    (hys (List.mem_map_of_mem hy)) rfl h)

theorem eq_of_texts {xs ys : List (BitVec w)} (htell : TextsTell (realsOf f xs ++ realsOf f ys))
    (h : xs.map (fun x => f.text x.toNat) = ys.map fun y => f.text y.toNat) : xs = ys :=
  eq_of_map_eq (fun _ hx _ hy htext => eq_of_text htell hx hy (List.subset_append_left _ _)
    (List.subset_append_right _ _) htext) h

theorem eq_of_complexTexts {xs ys : List (BitVec w × BitVec w)}
    (htell : TextsTell ((realsOf f (xs.map Prod.fst) ++ realsOf f (xs.map Prod.snd)) ++
      (realsOf f (ys.map Prod.fst) ++ realsOf f (ys.map Prod.snd))))
    (h : xs.map (fun x => complexText f x.1.toNat x.2.toNat) =
      ys.map fun y => complexText f y.1.toNat y.2.toNat) : xs = ys := by
  refine eq_of_map_eq (fun x hx y hy htext => ?_) h
  obtain ⟨hreal, himaginary⟩ := complexText_injective htext
  refine Prod.ext
    (eq_of_text htell (List.mem_map_of_mem hx) (List.mem_map_of_mem hy) ?_ ?_ hreal)
    (eq_of_text htell (List.mem_map_of_mem hx) (List.mem_map_of_mem hy) ?_ ?_ himaginary)
  all_goals exact fun _ h => by simp only [List.mem_append, h, true_or, or_true]

end Readable

/-- Elements that are stored alike can be read off their texts. -/
theorem texts_injective [NarrowConversions] {e d : Elements} (htype : e.type = d.type)
    (htell : TextsTell (e.reals ++ d.reals)) (h : e.texts = d.texts) : e = d := by
  cases e with
  | boolean xs =>
    cases d with
    | boolean ys =>
      rw [eq_of_map_eq (fun x _ y _ => by cases x <;> cases y <;> decide) h]
    | _ => cases htype
  | signed xs =>
    cases d with
    | signed ys => rw [eq_of_map_eq (fun _ _ _ _ => IntText.injective) h]
    | _ => cases htype
  | unsigned xs =>
    cases d with
    | unsigned ys => rw [eq_of_map_eq (fun _ _ _ _ => toString_injective) h]
    | _ => cases htype
  | float16 xs =>
    cases d with
    | float16 ys => rw [eq_of_texts htell h]
    | _ => cases htype
  | bfloat16 xs =>
    cases d with
    | bfloat16 ys => rw [eq_of_texts htell h]
    | _ => cases htype
  | float32 xs =>
    cases d with
    | float32 ys => rw [eq_of_texts htell h]
    | _ => cases htype
  | float64 xs =>
    cases d with
    | float64 ys => rw [eq_of_texts htell h]
    | _ => cases htype
  | complex64 xs =>
    cases d with
    | complex64 ys => rw [eq_of_complexTexts htell h]
    | _ => cases htype
  | complex128 xs =>
    cases d with
    | complex128 ys => rw [eq_of_complexTexts htell h]
    | _ => cases htype

end Elements

end TensorProgram
