import TensorProgram.NearestConversions
import TensorProgram.Proofs.WrittenNumbers

/-!
# Texts of real numbers

In single and in double precision the text of a number tells all its bits,
`RealFormat.text_faithful`.  A finite number is written as a decimal that reads back to its bits,
and the point that it may be given keeps the value.  A number that is not finite is written as its
bits in base sixteen, and that text has no point.  So `RealFormat.textsTell` holds of all numbers in
these precisions.
-/

namespace TensorProgram

/-! ## Base sixteen -/

def isUpperHexDigit (c : Char) : Bool :=
  c.isDigit || ('A' ≤ c && c ≤ 'F')

def hexDigitValue (c : Char) : Nat :=
  if c.isDigit then c.toNat - '0'.toNat else c.toNat - 'A'.toNat + 10

/-- The number that digits in base sixteen stand for. -/
def hexValue (digits : List Char) : Nat :=
  digits.foldl (fun n c => 16 * n + hexDigitValue c) 0

theorem hexValue_append_singleton (digits : List Char) (c : Char) :
    hexValue (digits ++ [c]) = 16 * hexValue digits + hexDigitValue c := by
  simp [hexValue]

theorem point_notMem_of_isUpperHexDigit {digits : List Char}
    (h : ∀ c ∈ digits, isUpperHexDigit c = true) : '.' ∉ digits :=
  fun hmem => absurd (h _ hmem) (by decide)

namespace RealFormat

theorem isUpperHexDigit_upperHexDigit : ∀ n < 16, isUpperHexDigit (upperHexDigit n) = true := by
  decide

theorem hexDigitValue_upperHexDigit : ∀ n < 16, hexDigitValue (upperHexDigit n) = n := by
  decide

theorem length_hexDigits (count n : Nat) : (hexDigits count n).length = count := by
  simp [hexDigits]

theorem isUpperHexDigit_of_mem {count n : Nat} {c : Char} (h : c ∈ hexDigits count n) :
    isUpperHexDigit c = true := by
  obtain ⟨i, _, rfl⟩ := List.mem_map.mp h
  exact isUpperHexDigit_upperHexDigit _ (Nat.mod_lt _ (by decide))

/-- The last digit is the remainder, and the other digits are those of the quotient. -/
theorem hexDigits_succ (count n : Nat) :
    hexDigits (count + 1) n = hexDigits count (n / 16) ++ [upperHexDigit (n % 16)] := by
  have hhigh : ∀ i ∈ List.range count,
      upperHexDigit ((n >>> (4 * (count - i))) % 16) =
        upperHexDigit (((n / 16) >>> (4 * (count - 1 - i))) % 16) := by
    intro i hi
    have hshift : 4 * (count - i) = 4 + 4 * (count - 1 - i) := by
      have := List.mem_range.mp hi
      omega
    rw [hshift, Nat.shiftRight_add, Nat.shiftRight_eq_div_pow n 4]
  simp only [hexDigits, List.range_succ, List.map_append, List.map_singleton, Nat.add_sub_cancel,
    Nat.sub_self, Nat.mul_zero, Nat.shiftRight_zero, List.map_congr_left hhigh]

theorem hexValue_hexDigits (count n : Nat) : hexValue (hexDigits count n) = n % 16 ^ count := by
  induction count generalizing n with
  | zero => simp [hexDigits, hexValue, Nat.mod_one]
  | succ count ih =>
    rw [hexDigits_succ, hexValue_append_singleton, ih,
      hexDigitValue_upperHexDigit _ (Nat.mod_lt _ (by decide)), Nat.pow_succ', Nat.mod_mul,
      Nat.add_comm]

/-! ## Reading texts -/

variable {f : RealFormat}

/-- The bits that a written number reads as. -/
def readBits (f : RealFormat) (n : WrittenNumber) : Nat :=
  (if n.negative then 1 <<< (f.bits - 1) else 0) + f.read n.decimal

theorem bits_pos (f : RealFormat) : 0 < f.bits := by
  cases f <;> decide

/-- Bits are a sign and a magnitude. -/
theorem sign_add_magnitude (bits : BitVec f.bits) :
    (if f.isNegative bits.toNat then 1 <<< (f.bits - 1) else 0) + f.magnitude bits.toNat =
      bits.toNat := by
  have hbits : bits.toNat < 2 ^ (f.bits - 1) * 2 := by
    rw [← Nat.pow_succ, Nat.succ_eq_add_one, Nat.sub_add_cancel f.bits_pos]
    exact bits.isLt
  simp only [isNegative, magnitude, Nat.one_shiftLeft, decide_eq_true_eq]
  split_ifs with h
  · rw [Nat.mod_eq_sub_mod h, Nat.mod_eq_of_lt (by omega)]
    omega
  · rw [Nat.mod_eq_of_lt (by omega), Nat.zero_add]

theorem readBits_pointed (n : WrittenNumber) : f.readBits n.pointed = f.readBits n := by
  unfold readBits
  rw [read_congr n.decimal_pointed]
  rfl

/-- The plain text of a finite number is a number that reads back to its bits. -/
theorem exists_plain (bits : BitVec f.bits) (hfinite : f.isFinite bits.toNat = true) :
    ∃ n : WrittenNumber, f.plainText bits.toNat = n.text ∧ f.readBits n = bits.toNat := by
  have hmagnitude : f.magnitude bits.toNat < f.infinity := of_decide_eq_true hfinite
  obtain ⟨n, hsign, htext, hvalue⟩ :=
    Decimal.writtenAs_text positionalRange (f.shortest (f.magnitude bits.toNat))
  refine ⟨{ n with negative := f.isNegative bits.toNat }, ?_, ?_⟩
  · rw [plainText, ← htext]
    simp [WrittenNumber.text, WrittenNumber.signText, signText, hsign]
  · have hread : f.read n.decimal = f.magnitude bits.toNat := by
      rw [read_congr hvalue, read_shortest hmagnitude]
    exact (congrArg _ hread).trans (sign_add_magnitude bits)

/-- The digits of a number that is not finite are its bits. -/
theorem hexValue_bits (hf : f = .f32 ∨ f = .f64) (bits : BitVec f.bits) :
    hexValue (hexDigits (f.bits / 4) bits.toNat) = bits.toNat := by
  have hbits : 2 ^ f.bits = 16 ^ (f.bits / 4) := by
    rcases hf with rfl | rfl <;> rfl
  rw [hexValue_hexDigits, ← hbits, Nat.mod_eq_of_lt bits.isLt]

section Texts

variable [NarrowConversions]

theorem text_of_isFinite (hf : f = .f32 ∨ f = .f64) {bits : Nat} (h : f.isFinite bits = true) :
    (f.text bits).toList = Decimal.withPoint (f.plainText bits) := by
  rw [text, String.toList_ofList, if_pos h, finiteText, if_pos hf]

theorem text_of_not_isFinite {bits : Nat} (h : f.isFinite bits = false) :
    (f.text bits).toList = '0' :: 'x' :: hexDigits (f.bits / 4) bits := by
  rw [text, String.toList_ofList, if_neg (by simp [h]), bitText]

/-- Numbers with one text have the same bits. -/
theorem text_injective (hf : f = .f32 ∨ f = .f64) {x y : BitVec f.bits}
    (h : f.text x.toNat = f.text y.toNat) : x = y := by
  have hpoint {x : BitVec f.bits} (hx : f.isFinite x.toNat = true) :
      '.' ∈ (f.text x.toNat).toList := by
    obtain ⟨n, hplain, _⟩ := exists_plain x hx
    obtain ⟨before, after, htext, _⟩ := n.exists_point
    rw [text_of_isFinite hf hx, hplain, n.withPoint_text, htext]
    exact List.mem_append_right _ List.mem_cons_self
  have hno {x : BitVec f.bits} (hx : f.isFinite x.toNat = false) :
      '.' ∉ (f.text x.toNat).toList := by
    have hdigits : '.' ∉ hexDigits (f.bits / 4) x.toNat :=
      point_notMem_of_isUpperHexDigit fun _ hc => isUpperHexDigit_of_mem hc
    simpa [text_of_not_isFinite hx] using hdigits
  have hlist := congrArg String.toList h
  refine BitVec.eq_of_toNat_eq ?_
  -- Only the text of a finite number has a point, so both are finite or neither is.
  cases hx : f.isFinite x.toNat <;> cases hy : f.isFinite y.toNat
  · rw [text_of_not_isFinite hx, text_of_not_isFinite hy] at hlist
    rw [← hexValue_bits hf x, (List.cons.inj (List.cons.inj hlist).2).2, hexValue_bits hf y]
  · exact absurd (hlist ▸ hpoint hy) (hno hx)
  · exact absurd (hlist ▸ hpoint hx) (hno hy)
  · obtain ⟨n, hn, hreadn⟩ := exists_plain x hx
    obtain ⟨m, hm, hreadm⟩ := exists_plain y hy
    rw [text_of_isFinite hf hx, text_of_isFinite hf hy, hn, hm, n.withPoint_text, m.withPoint_text]
      at hlist
    rw [← hreadn, ← hreadm, ← readBits_pointed n, ← readBits_pointed m,
      WrittenNumber.text_injective hlist]

/-- Numbers in single and in double precision are told by their texts. -/
theorem textsTell {reals : List (RealFormat × Nat)}
    (h : ∀ x ∈ reals, (x.1 = .f32 ∨ x.1 = .f64) ∧ x.2 < 2 ^ x.1.bits) : TextsTell reals := by
  rintro ⟨f, x⟩ hx ⟨_, y⟩ hy rfl htext
  have hlt := (h _ hx).2
  have hlt' := (h _ hy).2
  have heq := text_injective (x := .ofNatLT x hlt) (y := .ofNatLT y hlt') (h _ hx).1
    (by rwa [BitVec.toNat_ofNatLT, BitVec.toNat_ofNatLT])
  rw [← BitVec.toNat_ofNatLT x hlt, heq, BitVec.toNat_ofNatLT]

/-- The text of a finite number has one point, in front of its exponent, and the value of a decimal
that reads back to the bits.  The text of another number is its bits in base sixteen.  So the text
tells the bits. -/
theorem text_faithful {f : RealFormat} (hf : f = .f32 ∨ f = .f64) (bits : BitVec f.bits) :
    (f.isFinite bits.toNat = true →
      ∃ plain shown : WrittenNumber,
        (f.plainText bits.toNat = plain.text ∧ f.readBits plain = bits.toNat) ∧
        ((f.text bits.toNat).toList = shown.text ∧ shown.value = plain.value ∧
          shown.negative = plain.negative) ∧
        ∃ before after, shown.text = before ++ '.' :: after ∧
          '.' ∉ before ∧ '.' ∉ after ∧ 'e' ∉ before) ∧
    (f.isFinite bits.toNat = false →
      ∃ digits, (f.text bits.toNat).toList = '0' :: 'x' :: digits ∧ digits.length = f.bits / 4 ∧
        (∀ c ∈ digits, isUpperHexDigit c = true) ∧ hexValue digits = bits.toNat) ∧
    ∀ other : BitVec f.bits, f.text other.toNat = f.text bits.toNat → other = bits := by
  refine ⟨fun hfinite => ?_, fun hnot => ?_, fun other h => text_injective hf h⟩
  · obtain ⟨n, hplain, hread⟩ := exists_plain bits hfinite
    refine ⟨n, n.pointed, ⟨hplain, hread⟩, ⟨?_, n.value_pointed, rfl⟩, n.exists_point⟩
    rw [text_of_isFinite hf hfinite, hplain, n.withPoint_text]
  · exact ⟨hexDigits (f.bits / 4) bits.toNat, text_of_not_isFinite hnot, length_hexDigits _ _,
      fun _ hc => isUpperHexDigit_of_mem hc, hexValue_bits hf bits⟩

end Texts

/-- A number that gets a point in front of its exponent, and one that is not a number. -/
theorem text_faithful_single :
    (f32.isFinite 0x33D6BF95 = true ∧
      ∃ plain shown : WrittenNumber,
        (f32.plainText 0x33D6BF95 = plain.text ∧ f32.readBits plain = 0x33D6BF95) ∧
        ((f32.text 0x33D6BF95).toList = shown.text ∧ shown.value = plain.value ∧
          shown.negative = plain.negative) ∧
        ∃ before after, shown.text = before ++ '.' :: after ∧
          '.' ∉ before ∧ '.' ∉ after ∧ 'e' ∉ before) ∧
    (f32.isFinite 0x7FC00000 = false ∧
      ∃ digits, (f32.text 0x7FC00000).toList = '0' :: 'x' :: digits ∧ digits.length = 8 ∧
        (∀ c ∈ digits, isUpperHexDigit c = true) ∧ hexValue digits = 0x7FC00000) ∧
    ∀ other : BitVec f32.bits, f32.text other.toNat = f32.text 0x7FC00000 →
      other = 0x7FC00000#32 := by
  have hfinite : f32.isFinite 0x33D6BF95 = true := by decide
  have hnot : f32.isFinite 0x7FC00000 = false := by decide
  obtain ⟨hnumber, _, _⟩ := text_faithful (f := f32) (.inl rfl) 0x33D6BF95#32
  obtain ⟨_, hbits, htell⟩ := text_faithful (f := f32) (.inl rfl) 0x7FC00000#32
  exact ⟨⟨hfinite, hnumber hfinite⟩, ⟨hnot, hbits hnot⟩, htell⟩

example : f32.text 0x33D6BF95 = "1.0e-7" := by decide +kernel

end RealFormat

end TensorProgram
