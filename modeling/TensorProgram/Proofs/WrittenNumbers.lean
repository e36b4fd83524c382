import Mathlib.Data.List.TakeWhile
import TensorProgram.Proofs.ElementTexts
import TensorProgram.Proofs.Roundings

/-!
# Written numbers

A number is written as digits, with a sign if it is negative, and perhaps with a fraction behind a
point and with an exponent: `WrittenNumber`.  All its parts can be read off its text,
`WrittenNumber.text_injective`.

`Decimal.withPoint` gives a number a fraction if it has none, `WrittenNumber.withPoint_text`, and
keeps its value, `WrittenNumber.value_pointed`.  The texts of decimals are such numbers, and none
of the ways to write a decimal changes its value: `Decimal.writtenAs_text`.
-/

namespace TensorProgram

/-! ## Digits -/

/-- One or more decimal digits. -/
@[ext] structure Digits where
  chars : List Char
  ne_nil : chars ≠ []
  isDigit_of_mem : ∀ c ∈ chars, c.isDigit = true

namespace Digits

/-- The number that the digits stand for. -/
def number (d : Digits) : Nat :=
  Nat.ofDigitChars 10 d.chars 0

def zero : Digits :=
  ⟨['0'], List.cons_ne_nil _ _, List.forall_mem_singleton.mpr rfl⟩

def ofNat (n : Nat) : Digits :=
  ⟨Nat.toDigits 10 n, Nat.toDigits_ne_nil,
    fun _ hc => Nat.isDigit_of_mem_toDigits (by decide) (by decide) hc⟩

theorem number_ofNat (n : Nat) : (ofNat n).number = n :=
  Nat.ofDigitChars_ten_toDigits

theorem isDigit_of_mem_replicate {n : Nat} : ∀ c ∈ List.replicate n '0', c.isDigit = true := by
  intro c hc
  rw [List.eq_of_mem_replicate hc]
  decide

/-- Digits with zeros in front of them. -/
def zerosBefore (n : Nat) (d : Digits) : Digits :=
  ⟨List.replicate n '0' ++ d.chars, List.append_ne_nil_of_right_ne_nil _ d.ne_nil,
    List.forall_mem_append.mpr ⟨isDigit_of_mem_replicate, d.isDigit_of_mem⟩⟩

/-- Digits with zeros behind them. -/
def zerosBehind (d : Digits) (n : Nat) : Digits :=
  ⟨d.chars ++ List.replicate n '0', List.append_ne_nil_of_left_ne_nil d.ne_nil _,
    List.forall_mem_append.mpr ⟨d.isDigit_of_mem, isDigit_of_mem_replicate⟩⟩

def take (d : Digits) {n : Nat} (h : 0 < n) : Digits :=
  ⟨d.chars.take n, by simpa [List.take_eq_nil_iff, d.ne_nil] using h.ne',
    fun c hc => d.isDigit_of_mem c (List.mem_of_mem_take hc)⟩

def drop (d : Digits) {n : Nat} (h : n < d.chars.length) : Digits :=
  ⟨d.chars.drop n, by simpa [List.drop_eq_nil_iff] using h,
    fun c hc => d.isDigit_of_mem c (List.mem_of_mem_drop hc)⟩

theorem notMem (d : Digits) {c : Char} (hc : c.isDigit = false) : c ∉ d.chars := by
  intro hmem
  rw [d.isDigit_of_mem c hmem] at hc
  cases hc

/-- Digits end where something else follows. -/
theorem append_inj {d d' : Digits} {rest rest' : List Char}
    (hrest : ∀ c ∈ rest.head?, c.isDigit = false) (hrest' : ∀ c ∈ rest'.head?, c.isDigit = false)
    (h : d.chars ++ rest = d'.chars ++ rest') : d = d' ∧ rest = rest' := by
  have htake {d : Digits} {rest : List Char} (hrest : ∀ c ∈ rest.head?, c.isDigit = false) :
      (d.chars ++ rest).takeWhile Char.isDigit = d.chars := by
    rw [List.takeWhile_append_of_pos d.isDigit_of_mem]
    cases rest with
    | nil => simp
    | cons c rest => simp [hrest c rfl]
  have hchars : d.chars = d'.chars := by rw [← htake hrest, h, htake hrest']
  rw [hchars] at h
  exact ⟨Digits.ext hchars, List.append_cancel_left h⟩

end Digits

/-! ## Values of decimals -/

namespace Decimal

/-- Zeros behind the digits make up for a lesser exponent. -/
theorem value_mul_pow (digits k : Nat) (exponent : Int) :
    value ⟨digits * 10 ^ k, exponent - k⟩ = value ⟨digits, exponent⟩ := by
  have hten : (10 : ℚ) ≠ 0 := by norm_num
  simp only [value, Nat.cast_mul, Nat.cast_pow, Nat.cast_ofNat, zpow_sub₀ hten, zpow_natCast]
  field_simp

theorem value_strip (fuel : Nat) (d : Decimal) : (strip fuel d).value = d.value := by
  induction fuel generalizing d with
  | zero => rfl
  | succ fuel ih =>
    unfold strip
    split_ifs with h
    · have hdigits : d.digits = d.digits / 10 * 10 ^ 1 := by omega
      calc (strip fuel ⟨d.digits / 10, d.exponent + 1⟩).value
          = value ⟨d.digits / 10, d.exponent + 1⟩ := ih _
        _ = value ⟨d.digits / 10 * 10 ^ 1, d.exponent + 1 - (1 : Nat)⟩ := (value_mul_pow _ _ _).symm
        _ = d.value := by rw [← hdigits, Nat.cast_one, add_sub_cancel_right]
    · rfl

theorem value_stripped (d : Decimal) : d.stripped.value = d.value :=
  value_strip _ d

end Decimal

/-! ## Numbers and their texts -/

/-- A number as it is written. -/
@[ext] structure WrittenNumber where
  negative : Bool
  whole : Digits
  fraction? : Option Digits
  exponent? : Option Int

namespace WrittenNumber

def signText (negative : Bool) : List Char :=
  if negative then ['-'] else []

def fractionText : Option Digits → List Char
  | none => []
  | some digits => '.' :: digits.chars

def exponentText : Option Int → List Char
  | none => []
  | some place => 'e' :: (toString place).toList

def text (n : WrittenNumber) : List Char :=
  signText n.negative ++ (n.whole.chars ++ (fractionText n.fraction? ++ exponentText n.exponent?))

/-- The digits behind the point. -/
def fraction (n : WrittenNumber) : List Char :=
  n.fraction?.elim [] Digits.chars

/-- The number without its sign. -/
def decimal (n : WrittenNumber) : Decimal :=
  ⟨Nat.ofDigitChars 10 (n.whole.chars ++ n.fraction) 0, n.exponent?.getD 0 - n.fraction.length⟩

theorem decimal_eq {n : WrittenNumber} {d : Decimal}
    (hdigits : Nat.ofDigitChars 10 (n.whole.chars ++ n.fraction) 0 = d.digits)
    (hexponent : n.exponent?.getD 0 - n.fraction.length = d.exponent) : n.decimal = d := by
  rw [decimal, hdigits, hexponent]

def value (n : WrittenNumber) : ℚ :=
  if n.negative then -n.decimal.value else n.decimal.value

/-! ### Reading the parts -/

theorem exponentText_injective {e e' : Option Int} (h : exponentText e = exponentText e') :
    e = e' := by
  cases e with
  | none =>
    cases e' with
    | none => rfl
    | some place => cases h
  | some place =>
    cases e' with
    | none => cases h
    | some place' =>
      rw [IntText.injective (String.toList_inj.mp (List.cons.inj h).2)]

theorem head?_exponentText (e : Option Int) :
    ∀ c ∈ (exponentText e).head?, c.isDigit = false := by
  cases e with
  | none => exact fun _ hc => nomatch hc
  | some place =>
    rintro _ ⟨⟩
    decide

theorem head?_fractionText (digits : Option Digits) (e : Option Int) :
    ∀ c ∈ (fractionText digits ++ exponentText e).head?, c.isDigit = false := by
  cases digits with
  | none => exact head?_exponentText e
  | some digits =>
    rintro _ ⟨⟩
    decide

theorem append_exponentText_inj {digits digits' : Option Digits} {e e' : Option Int}
    (h : fractionText digits ++ exponentText e = fractionText digits' ++ exponentText e') :
    digits = digits' ∧ e = e' := by
  have hpoint (rest : List Char) (e : Option Int) : exponentText e ≠ '.' :: rest := by
    cases e with
    | none => exact nofun
    | some place => exact fun h => absurd (List.cons.inj h).1 (by decide)
  cases digits with
  | none =>
    cases digits' with
    | none => exact ⟨rfl, exponentText_injective h⟩
    | some digits' => exact absurd h (hpoint _ e)
  | some digits =>
    cases digits' with
    | none => exact absurd h.symm (hpoint _ e')
    | some digits' =>
      obtain ⟨rfl, hexponent⟩ := Digits.append_inj (head?_exponentText e) (head?_exponentText e')
        (List.cons.inj h).2
      exact ⟨rfl, exponentText_injective hexponent⟩

theorem append_signText_inj {b b' : Bool} {d d' : Digits} {rest rest' : List Char}
    (h : signText b ++ (d.chars ++ rest) = signText b' ++ (d'.chars ++ rest')) :
    b = b' ∧ d.chars ++ rest = d'.chars ++ rest' := by
  have hsign (d : Digits) (rest x : List Char) : d.chars ++ rest ≠ '-' :: x := by
    intro h
    obtain ⟨c, chars, hchars⟩ := List.exists_cons_of_ne_nil d.ne_nil
    rw [hchars, List.cons_append, List.cons.injEq] at h
    exact d.notMem (c := '-') (by decide) (hchars ▸ h.1 ▸ List.mem_cons_self)
  cases b <;> cases b'
  · exact ⟨rfl, h⟩
  · exact absurd h (hsign d rest _)
  · exact absurd h.symm (hsign d' rest' _)
  · exact ⟨rfl, (List.cons.inj h).2⟩

/-- All parts of a number can be read off its text. -/
theorem text_injective {n n' : WrittenNumber} (h : n.text = n'.text) : n = n' := by
  obtain ⟨hsign, hrest⟩ := append_signText_inj h
  obtain ⟨hwhole, htail⟩ :=
    Digits.append_inj (head?_fractionText _ _) (head?_fractionText _ _) hrest
  obtain ⟨hfraction, hexponent⟩ := append_exponentText_inj htail
  exact WrittenNumber.ext hsign hwhole hfraction hexponent

/-! ### The point -/

theorem notMem_signText {c : Char} (hc : c ≠ '-') (b : Bool) : c ∉ signText b := by
  cases b <;> simp [signText, hc]

theorem point_notMem_exponentText (e : Option Int) : '.' ∉ exponentText e := by
  cases e with
  | none => exact List.not_mem_nil
  | some place =>
    have hplace : '.' ∉ (toString place).toList := by
      intro h
      rw [IntText.toString_eq] at h
      split_ifs at h
      · rw [String.toList_append, List.mem_append] at h
        rcases h with h | h
        · revert h
          decide
        · exact absurd (isDigit_of_mem_toString h) (by decide)
      · exact absurd (isDigit_of_mem_toString h) (by decide)
    simpa [exponentText] using hplace

/-- The sign and the digits in front of a point or of an exponent. -/
theorem notMem_head {c : Char} (hc : c ≠ '-') (hdigit : c.isDigit = false) (n : WrittenNumber) :
    c ∉ signText n.negative ++ n.whole.chars := by
  rw [List.mem_append, not_or]
  exact ⟨notMem_signText hc _, n.whole.notMem hdigit⟩

/-- The number with a fraction, which is zero if it has none. -/
def pointed (n : WrittenNumber) : WrittenNumber :=
  { n with fraction? := some (n.fraction?.getD .zero) }

theorem withPoint_text (n : WrittenNumber) : Decimal.withPoint n.text = n.pointed.text := by
  obtain ⟨negative, whole, fraction?, exponent?⟩ := n
  cases fraction? with
  | some digits =>
    have hpoint : '.' ∈ text ⟨negative, whole, some digits, exponent?⟩ := by
      simp [text, fractionText]
    rw [Decimal.withPoint, if_pos (List.contains_iff_mem.mpr hpoint)]
    rfl
  | none =>
    have hhead : ∀ c ∈ signText negative ++ whole.chars, (c != 'e') = true := by
      rintro c hc
      refine bne_iff_ne.mpr ?_
      rintro rfl
      exact notMem_head (by decide) (by decide) ⟨negative, whole, none, exponent?⟩ hc
    have hpoint : '.' ∉ (signText negative ++ whole.chars) ++ exponentText exponent? := by
      rw [List.mem_append, not_or]
      exact ⟨notMem_head (by decide) (by decide) ⟨negative, whole, none, exponent?⟩,
        point_notMem_exponentText _⟩
    have htext : text ⟨negative, whole, none, exponent?⟩ =
        (signText negative ++ whole.chars) ++ exponentText exponent? := by
      simp [text, fractionText]
    have htake : (exponentText exponent?).takeWhile (· != 'e') = [] := by
      cases exponent? <;> simp [exponentText]
    have hdrop : (exponentText exponent?).dropWhile (· != 'e') = exponentText exponent? := by
      cases exponent? <;> simp [exponentText]
    rw [htext, Decimal.withPoint, if_neg (mt List.contains_iff_mem.mp hpoint),
      List.takeWhile_append_of_pos hhead, List.dropWhile_append_of_pos hhead, htake, hdrop]
    simp [text, pointed, fractionText, Digits.zero]

theorem decimal_pointed (n : WrittenNumber) : n.pointed.decimal.value = n.decimal.value := by
  obtain ⟨negative, whole, fraction?, exponent?⟩ := n
  cases fraction? with
  | some digits => rfl
  | none =>
    have h := Decimal.value_mul_pow (Nat.ofDigitChars 10 whole.chars 0) 1 (exponent?.getD 0)
    simpa [decimal, pointed, fraction, Digits.zero, Nat.ofDigitChars_append,
      Nat.ofDigitChars_cons, Nat.mul_comm] using h

/-- The point does not change the number. -/
theorem value_pointed (n : WrittenNumber) : n.pointed.value = n.value := by
  simp only [value, decimal_pointed]
  rfl

/-- There is one point, in front of the exponent. -/
theorem exists_point (n : WrittenNumber) :
    ∃ before after, n.pointed.text = before ++ '.' :: after ∧
      '.' ∉ before ∧ '.' ∉ after ∧ 'e' ∉ before := by
  refine ⟨signText n.negative ++ n.whole.chars,
    (n.fraction?.getD .zero).chars ++ exponentText n.exponent?, ?_,
    notMem_head (by decide) (by decide) n, ?_, notMem_head (by decide) (by decide) n⟩
  · simp [text, pointed, fractionText]
  · rw [List.mem_append, not_or]
    exact ⟨Digits.notMem _ (by decide), point_notMem_exponentText _⟩

end WrittenNumber

/-! ## Texts of decimals -/

namespace Decimal

/-- The text is a number without a sign that has the value of the decimal. -/
def WrittenAs (d : Decimal) (text : List Char) : Prop :=
  ∃ n : WrittenNumber, n.negative = false ∧ n.text = text ∧ n.decimal.value = d.value

variable (digits : Digits) (exponent : Int)

theorem writtenAs_positional :
    WrittenAs ⟨digits.number, exponent⟩
      (positional digits.chars (exponent + digits.chars.length)) := by
  unfold positional
  split_ifs with hbefore hbehind
  · -- The number is less than one, and zeros stand in front of its digits.
    obtain ⟨zeros, hzeros⟩ : ∃ n : Nat, -(exponent + digits.chars.length) = n :=
      Int.eq_ofNat_of_zero_le (by omega)
    refine ⟨⟨false, .zero, some (digits.zerosBefore zeros), none⟩, rfl, ?_,
      congrArg value (WrittenNumber.decimal_eq ?_ ?_)⟩
    · simp [hzeros, WrittenNumber.text, WrittenNumber.signText, WrittenNumber.fractionText,
        WrittenNumber.exponentText, Digits.zero, Digits.zerosBefore]
    · simp [WrittenNumber.fraction, Digits.zero, Digits.zerosBefore, Digits.number,
        Nat.ofDigitChars_append, Nat.ofDigitChars_cons, Nat.ofDigitChars_replicate_zero]
    · have hexponent : (0 : Int) - (zeros + digits.chars.length) = exponent := by omega
      simpa [WrittenNumber.fraction, Digits.zerosBefore] using hexponent
  · -- The number is whole, and zeros stand behind its digits.
    obtain ⟨zeros, rfl⟩ : ∃ n : Nat, exponent = n := Int.eq_ofNat_of_zero_le (by omega)
    have hzeros : ((zeros : Int) + digits.chars.length).toNat - digits.chars.length = zeros := by
      omega
    refine ⟨⟨false, digits.zerosBehind zeros, some .zero, none⟩, rfl, ?_, ?_⟩
    · simp [hzeros, WrittenNumber.text, WrittenNumber.signText, WrittenNumber.fractionText,
        WrittenNumber.exponentText, Digits.zero, Digits.zerosBehind]
    · rw [← value_mul_pow digits.number (zeros + 1)]
      refine congrArg value (WrittenNumber.decimal_eq ?_ ?_)
      · have hten : 10 * (10 ^ zeros * digits.number) = digits.number * 10 ^ (zeros + 1) := by ring
        simpa [WrittenNumber.fraction, Digits.zero, Digits.zerosBehind, Digits.number,
          Nat.ofDigitChars_append, Nat.ofDigitChars_cons, Nat.ofDigitChars_replicate_zero]
          using hten
      · simp [WrittenNumber.fraction, Digits.zero]
  · -- The point stands among the digits.
    obtain ⟨n, hn⟩ : ∃ n : Nat, exponent + digits.chars.length = n :=
      Int.eq_ofNat_of_zero_le (by omega)
    have hpos : 0 < n := by omega
    have hlt : n < digits.chars.length := by omega
    refine ⟨⟨false, digits.take hpos, some (digits.drop hlt), none⟩, rfl, ?_,
      congrArg value (WrittenNumber.decimal_eq ?_ ?_)⟩
    · simp [hn, WrittenNumber.text, WrittenNumber.signText, WrittenNumber.fractionText,
        WrittenNumber.exponentText, Digits.take, Digits.drop]
    · exact congrArg (Nat.ofDigitChars 10 · 0) (List.take_append_drop n digits.chars)
    · have hexponent : (0 : Int) - (digits.chars.length - n : Nat) = exponent := by omega
      simpa [WrittenNumber.fraction, Digits.drop] using hexponent

theorem writtenAs_exponential :
    WrittenAs ⟨digits.number, exponent⟩
      (exponential digits.chars (exponent + digits.chars.length - 1)) := by
  have hlength : 0 < digits.chars.length := List.length_pos_iff.mpr digits.ne_nil
  unfold exponential
  split_ifs with hone
  · have hall : digits.chars.take 1 = digits.chars := List.take_of_length_le hone
    have hplace : exponent + digits.chars.length - 1 = exponent := by omega
    refine ⟨⟨false, digits, none, some exponent⟩, rfl, ?_,
      congrArg value (WrittenNumber.decimal_eq ?_ ?_)⟩
    · simp [hall, hplace, WrittenNumber.text, WrittenNumber.signText, WrittenNumber.fractionText,
        WrittenNumber.exponentText]
    · simp [WrittenNumber.fraction, Digits.number]
    · simp [WrittenNumber.fraction]
  · have hlt : 1 < digits.chars.length := Nat.lt_of_not_le hone
    refine ⟨⟨false, digits.take Nat.one_pos, some (digits.drop hlt),
      some (exponent + digits.chars.length - 1)⟩, rfl, ?_,
      congrArg value (WrittenNumber.decimal_eq ?_ ?_)⟩
    · simp [WrittenNumber.text, WrittenNumber.signText, WrittenNumber.fractionText,
        WrittenNumber.exponentText, Digits.take, Digits.drop]
    · exact congrArg (Nat.ofDigitChars 10 · 0) (List.take_append_drop 1 digits.chars)
    · have hexponent : exponent + digits.chars.length - 1 - (digits.chars.length - 1 : Nat) =
          exponent := by omega
      simpa [WrittenNumber.fraction, Digits.drop] using hexponent

/-- Every way to write a decimal keeps its value. -/
theorem writtenAs_text (range : PositionalRange) (d : Decimal) : d.WrittenAs (d.text range) := by
  simp only [text]
  split_ifs with hzero hrange
  · refine ⟨⟨false, .zero, some .zero, none⟩, rfl, rfl, ?_⟩
    simp [value, hzero, WrittenNumber.decimal, WrittenNumber.fraction, Digits.zero,
      Nat.ofDigitChars_cons]
  · obtain ⟨n, hsign, htext, hvalue⟩ :=
      writtenAs_positional (.ofNat d.stripped.digits) d.stripped.exponent
    refine ⟨n, hsign, htext.trans ?_, hvalue.trans ?_⟩
    · rw [sub_add_cancel]
      rfl
    · rw [Digits.number_ofNat]
      exact d.value_stripped
  · obtain ⟨n, hsign, htext, hvalue⟩ :=
      writtenAs_exponential (.ofNat d.stripped.digits) d.stripped.exponent
    refine ⟨n, hsign, htext, hvalue.trans ?_⟩
    rw [Digits.number_ofNat]
    exact d.value_stripped

end Decimal

end TensorProgram
