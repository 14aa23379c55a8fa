import TypedLiteral.FloatLiteral
import TypedLiteral.Proofs.Binary.Encoding
import TypedLiteral.Proofs.Binary.Quotient
import TypedLiteral.Proofs.Binary.Widening

/-!
Which numbers of a format the encoder writes as they are. A normal number whose mantissa
is shorter than the precision gets zeros behind it. A subnormal gets none: the last bit of
its fraction stands for the least subnormal, so its mantissa has to reach down that far.
Every number built by divisions and roundings is long enough for this. Lengths and
exponents are kept in words of 64 bits, which the encoder then never leaves.
-/
namespace TypedLiteral.Binary

/-- Whole numbers that a word of 64 bits holds, with their sign. -/
def Word (n : ℤ) : Prop := -2 ^ 63 ≤ n ∧ n < 2 ^ 63

instance (n : ℤ) : Decidable (Word n) := inferInstanceAs (Decidable (_ ∧ _))

namespace Scaled

structure Fits (number : Scaled) : Prop where
  length : Word (bitLength number.mantissa)
  exponent : Word number.exponent
  leading : Word (number.exponent + bitLength number.mantissa)

instance (number : Scaled) : Decidable number.Fits :=
  decidable_of_iff (Word (bitLength number.mantissa) ∧ Word number.exponent ∧
      Word (number.exponent + bitLength number.mantissa))
    ⟨fun ⟨length, exponent, leading⟩ => ⟨length, exponent, leading⟩,
      fun ⟨length, exponent, leading⟩ => ⟨length, exponent, leading⟩⟩

/-- The number is zero or normal, or its mantissa reaches down to the last bit of a
subnormal's fraction. -/
def Aligned (number : Scaled) (format : Format) : Prop :=
  number.mantissa = 0 ∨ format.minExponent ≤ number.leadingExponent ∨
    number.exponent ≤ format.leastExponent

instance (number : Scaled) (format : Format) : Decidable (number.Aligned format) :=
  inferInstanceAs (Decidable (_ ∨ _ ∨ _))

/-- The numbers there are: zero, quotients, and what they are rounded to. -/
inductive Built : Scaled → Prop where
  | zero : Built .zero
  | quotient {number : Scaled} (numerator denominator : Nat)
      (divided : Scaled.quotient numerator denominator = .ok number) : Built number
  | round {number : Scaled} (format : Format) (incoming : Direction) (built : Built number) :
      Built (number.round format incoming).1

theorem quotient_long {number : Scaled} (numerator denominator : Nat)
    (divided : Scaled.quotient numerator denominator = .ok number) : number.Long := by
  rcases Nat.eq_zero_or_pos denominator with rfl | positive
  · have fails : Scaled.quotient numerator 0 = .error .divisionByZero := by
      simp [Scaled.quotient, divide, Except.map]
    cases divided.symm.trans fails
  by_cases nonzero : numerator = 0
  · left
    subst nonzero
    have upward : (0 : ℤ) ≤ quotientBits - bitLength 0 + bitLength denominator := by
      simp [quotientBits, bitLength]
      omega
    simp only [Scaled.quotient, divide, upward, positive.ne', Except.map, ↓reduceIte,
      Nat.zero_mul, Nat.zero_div, Nat.zero_mod, Except.ok.injEq] at divided
    rw [← divided]
  · obtain ⟨dividend, divisor, exponent, _, _, scaled, length, _, done⟩ :=
      quotient_shifted numerator denominator nonzero positive
    cases divided.symm.trans done
    exact .inr (sticky_length scaled length).1

theorem Long.round {number : Scaled} (long : number.Long) (format : Format)
    (incoming : Direction) : (number.round format incoming).1.Long := by
  unfold Scaled.round
  split
  · exact long
  · next nonzero =>
      split
      · exact .inl rfl
      · exact (round_longer _ _ _).imp_right (long.resolve_left nonzero).trans

theorem Built.long {number : Scaled} (built : number.Built) : number.Long := by
  induction built with
  | zero => exact .inl rfl
  | quotient numerator denominator divided => exact quotient_long numerator denominator divided
  | round format incoming _ ih => exact ih.round format incoming

theorem Long.aligned {number : Scaled} {format : Format} (regular : format.Regular)
    (long : number.Long) : number.Aligned format := by
  refine long.imp_right fun many => ?_
  have precise := regular.precise
  rw [leadingExponent, Format.leastExponent, Format.fractionBits]
  rw [quotientBits] at many
  omega

end Scaled

theorem candidates_built (literal : FloatLiteral) {number : Scaled}
    (scaled : literal.scaled = .ok number) :
    (Candidates.of number).double.Built ∧ (Candidates.of number).single.Built := by
  have built : number.Built := by
    rw [FloatLiteral.scaled] at scaled
    cases digits : Base.decimal.magnitude (literal.integer ++ literal.fraction) with
    | error violation => simp [digits, bind, Except.bind] at scaled
    | ok numerator =>
        simp only [digits, bind, Except.bind] at scaled
        split at scaled
        · cases scaled
          exact .zero
        · exact .quotient _ _ scaled
  have double := built.round binary64 .exact
  exact ⟨double, double.round binary32 _⟩

namespace Format

variable {format : Format} {number : Scaled} {step : Nat}

theorem value_subnormal (onStep : number.OnStep format step)
    (low : step < weight 2 format.fractionBits) :
    (number.mantissa : ℚ) * 2 ^ number.exponent =
      step * 2 ^ (((0 : ℕ) : ℤ) + format.leastExponent) := by
  have first := format.rung_row 0 step (Or.inl rfl) (by omega)
  rw [Nat.zero_mul, Nat.zero_add, show weight 2 0 = 1 from rfl, Nat.mul_one] at first
  rw [Scaled.OnStep, Scaled.value, first] at onStep
  rw [onStep, Nat.cast_zero, zero_add]

theorem step_nonzero (onStep : number.OnStep format step) (nonzero : number.mantissa ≠ 0) :
    step ≠ 0 := by
  obtain ⟨count, significand, place, _, _, _, empty⟩ := onStep_row onStep
  have present := mt empty.mp nonzero
  omega

theorem leading_subnormal (onStep : number.OnStep format step) (nonzero : number.mantissa ≠ 0)
    (low : step < weight 2 format.fractionBits) :
    number.leadingExponent < format.minExponent := by
  have leading := leading_onStep (step_nonzero onStep nonzero) (value_subnormal onStep low)
  have short := (bitLength_le step _).mpr low
  rw [leastExponent] at leading
  omega

theorem room_of_aligned (onStep : number.OnStep format step) (isAligned : number.Aligned format)
    (low : step < weight 2 format.fractionBits) :
    bitLength step ≤ bitLength number.mantissa := by
  by_cases zero : number.mantissa = 0
  · rw [step_zero onStep zero]
    exact Nat.zero_le _
  have subnormal := leading_subnormal onStep zero low
  have fine := (isAligned.resolve_left zero).resolve_left (not_le.mpr subnormal)
  apply bitLength_mono
  rcases aligned (value_subnormal onStep low) with ⟨zeros, mantissa, _⟩ | ⟨zeros, same, apart⟩
  · rw [mantissa]
    exact Nat.le_mul_of_pos_right step (bit_pos zeros)
  · have none : zeros = 0 := by omega
    rw [same, none]
    exact (Nat.mul_one _).le

theorem known_bounds (known : format ∈ [binary32, binary64]) :
    format.Regular ∧ 0 ≤ (format.maxExponent : ℤ) ∧ (format.maxExponent : ℤ) ≤ 1023 ∧
      -1074 ≤ format.leastExponent ∧ format.leastExponent ≤ 0 := by
  simp only [List.mem_cons, List.not_mem_nil, or_false] at known
  rcases known with rfl | rfl
  · exact ⟨binary32_regular, by decide⟩
  · exact ⟨binary64_regular, by decide⟩

/-- The encoder never fails, and on a number that fits into words its exponents do so too.
A number that the format has is written as the pattern that stands for it, in either sign
and however long its mantissa is, if it was built by divisions and roundings or is aligned
at all. A number that is too large for the format is written as infinity. -/
theorem encode_number (format : Format) (known : format ∈ [binary32, binary64])
    (negative : Bool) (number : Scaled) (fits : number.Fits) :
    (∃ pattern, number.encode format negative = .ok pattern ∧
      pattern < weight 2 (format.exponentBits + format.fractionBits + 1)) ∧
    (number.mantissa ≠ 0 → Word number.leadingExponent ∧
      (number.leadingExponent ≤ format.maxExponent →
        Word (number.leadingExponent + format.maxExponent) ∧
        Word (number.leadingExponent - format.leastExponent + 1))) ∧
    (∀ pattern < weight 2 (format.exponentBits + format.fractionBits + 1),
      format.number pattern = .finite negative number.value →
        number.Built ∨ number.Aligned format → number.encode format negative = .ok pattern) ∧
    (number.mantissa ≠ 0 → (format.maxExponent : ℤ) < number.leadingExponent →
      ∃ pattern, number.encode format negative = .ok pattern ∧
        format.number pattern = .infinite negative) := by
  obtain ⟨regular, atLeast, atMost, low, high⟩ := known_bounds known
  refine ⟨encode_total regular number negative, ?_, ?_, ?_⟩
  · intro nonzero
    have leading := fits.leading
    have exponent := fits.exponent
    have positive := (bitLength_pos _).mpr nonzero
    unfold Word at *
    rw [Scaled.leadingExponent]
    omega
  · intro pattern bounded stands enough
    have isAligned := enough.elim (fun built => built.long.aligned regular) id
    obtain ⟨sign, finite, onStep⟩ := (format.number_finite _ _ _).mp stands
    rw [encode_onStep regular _ _ onStep (room_of_aligned onStep isAligned),
      Nat.min_eq_left finite.le, ← sign, format.pattern_stepOf pattern bounded]
  · intro nonzero beyond
    refine ⟨format.pattern negative format.specialExponent 0, ?_, ?_⟩
    · simp only [Scaled.encode, nonzero, beyond, ↓reduceIte]
    · rw [number_special negative (bit_pos _), if_pos rfl]

theorem finite_of_rung (rung : Nat) {pattern : Nat} {negative : Bool}
    (sign : binary32.isNegative pattern = negative)
    (finite : binary32.stepOf pattern < binary32.topStep)
    (reached : binary32.rung (binary32.stepOf pattern) = rung)
    (same : number.value = rung * 2 ^ (-149 : ℤ)) :
    binary32.number pattern = .finite negative number.value := by
  have least : binary32.leastExponent = -149 := by decide
  rw [number_finite, reached, least]
  exact ⟨sign, finite, same⟩

/-- A tenth, rounded as the program rounds it, a subnormal whose mantissa reaches below the
last bit of its fraction and the least normal number with a mantissa of one bit are written
as they are; a number just too large for the format becomes infinity. -/
theorem encode_number_shortest :
    Scaled.encode ⟨14757395478869966848, -67⟩ binary32 false = .ok 0x3dcccccd ∧
    Scaled.encode ⟨6, -150⟩ binary32 true = .ok 0x80000003 ∧
    Scaled.encode ⟨1, -126⟩ binary32 false = .ok 0x00800000 ∧
    ∃ pattern, Scaled.encode ⟨1, 128⟩ binary32 true = .ok pattern ∧
      binary32.number pattern = .infinite true := by
  have tenth : binary32.number 0x3dcccccd =
      .finite false (Scaled.value ⟨14757395478869966848, -67⟩) :=
    finite_of_rung (13421773 * 2 ^ 122) (by decide) (by decide) (by decide)
      (by norm_num [Scaled.value])
  have subnormal : binary32.number 0x80000003 = .finite true (Scaled.value ⟨6, -150⟩) :=
    finite_of_rung 3 (by decide) (by decide) (by decide) (by norm_num [Scaled.value])
  have normal : binary32.number 0x00800000 = .finite false (Scaled.value ⟨1, -126⟩) :=
    finite_of_rung (2 ^ 23) (by decide) (by decide) (by decide)
      (by norm_num [Scaled.value])
  have scaled : FloatLiteral.scaled ⟨.none, ['0'], ['1']⟩ = .ok ⟨14757395258967641293, -67⟩ := by
    rfl
  have rounded : (Candidates.of ⟨14757395258967641293, -67⟩).single =
      ⟨14757395478869966848, -67⟩ := by decide
  have built := (candidates_built _ scaled).2
  rw [rounded] at built
  obtain ⟨_, _, own, _⟩ := encode_number binary32 (by decide) false ⟨14757395478869966848, -67⟩
    (by decide)
  obtain ⟨_, _, low, _⟩ := encode_number binary32 (by decide) true ⟨6, -150⟩ (by decide)
  obtain ⟨_, _, high, _⟩ := encode_number binary32 (by decide) false ⟨1, -126⟩ (by decide)
  obtain ⟨_, _, _, beyond⟩ := encode_number binary32 (by decide) true ⟨1, 128⟩ (by decide)
  exact ⟨own _ (by decide) tenth (.inl built),
    low _ (by decide) subnormal (.inr (by decide)), high _ (by decide) normal (.inr (by decide)),
    beyond (by decide) (by decide)⟩

section Misaligned

variable (misaligned : ¬ number.Aligned format)
include misaligned

theorem short_of_misaligned : number.mantissa ≠ 0 ∧
    number.mantissa < weight 2 format.fractionBits := by
  obtain ⟨nonzero, coarse⟩ := not_or.mp misaligned
  obtain ⟨subnormal, above⟩ := not_or.mp coarse
  rw [leastExponent] at above
  rw [Scaled.leadingExponent] at subnormal
  exact ⟨nonzero, (bitLength_le _ _).mp (by omega)⟩

theorem encode_misaligned (regular : format.Regular) (negative : Bool) :
    number.encode format negative = .ok (format.pattern negative 0 number.mantissa) := by
  obtain ⟨nonzero, low⟩ := short_of_misaligned misaligned
  obtain ⟨subnormal, above⟩ := not_or.mp (not_or.mp misaligned).2
  obtain ⟨range, special, largest⟩ := regular.special_eq
  have precision := regular.precision_eq
  have precise := regular.precise
  have short := (bitLength_le _ _).mpr low
  have finite : ¬ (format.maxExponent : ℤ) < number.leadingExponent := by
    rw [minExponent] at subnormal
    omega
  -- The room up to the leading bit is longer than the mantissa, which is taken as a whole.
  have room : bitLength number.mantissa ≤
      (number.leadingExponent - format.leastExponent + 1).toNat := by
    rw [Scaled.leadingExponent]
    omega
  rw [Scaled.encode]
  simp only [nonzero, finite, subnormal, ↓reduceIte]
  rw [Nat.min_eq_right room, leadingBits_ok _ _ (by omega) (Nat.le_refl _), Nat.sub_self]
  simp [Except.map, weight]

theorem not_onStep_of_misaligned : ¬ number.OnStep format number.mantissa := by
  intro onStep
  obtain ⟨nonzero, low⟩ := short_of_misaligned misaligned
  have leading := leading_onStep nonzero (value_subnormal onStep low)
  have above := (not_or.mp (not_or.mp misaligned).2).2
  rw [Scaled.leadingExponent] at leading
  omega

/-- Without alignment no pattern of the number is written: the mantissa is put into the
fraction as it is, where its last bit stands for the least subnormal. -/
theorem not_encoded_of_misaligned (regular : format.Regular) (negative : Bool) : ∃ pattern,
    number.encode format negative = .ok pattern ∧
      format.number pattern ≠ .finite negative number.value := by
  refine ⟨_, encode_misaligned misaligned regular negative, ?_⟩
  intro stands
  obtain ⟨_, _, onStep⟩ := (format.number_finite _ _ _).mp stands
  have inside := (short_of_misaligned misaligned).2.trans_le
    (weight_le (Nat.le_add_left _ format.exponentBits))
  change number.OnStep format _ at onStep
  rw [format.stepOf_pattern negative _ inside] at onStep
  exact not_onStep_of_misaligned misaligned onStep

end Misaligned

/-- A mantissa of one bit that stands for twice the least subnormal is written as the
pattern of the least subnormal. -/
theorem encode_halves_subnormal :
    Scaled.Fits ⟨1, -148⟩ ∧
      binary32.number 2 = .finite false (Scaled.value ⟨1, -148⟩) ∧
      Scaled.encode ⟨1, -148⟩ binary32 false = .ok 1 ∧
      binary32.number 1 ≠ .finite false (Scaled.value ⟨1, -148⟩) := by
  have second : binary32.number 2 = .finite false (Scaled.value ⟨1, -148⟩) :=
    finite_of_rung 2 (by decide) (by decide) (by decide) (by norm_num [Scaled.value])
  have written : Scaled.encode ⟨1, -148⟩ binary32 false = .ok 1 := by decide
  have misaligned : ¬ Scaled.Aligned ⟨1, -148⟩ binary32 := by decide
  obtain ⟨pattern, done, other⟩ := not_encoded_of_misaligned misaligned binary32_regular false
  cases written.symm.trans done
  exact ⟨by decide, second, written, other⟩

end Format

end TypedLiteral.Binary
