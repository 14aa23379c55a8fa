import Mathlib.Data.Nat.Cast.Field
import TypedLiteral.Proofs.Binary.Scaled

/-!
A quotient cut to 64 or 65 bits. The odd last bit of an inexact quotient lies
strictly between two even numbers, and so does the exact quotient: no comparison
with an even number, and so no rounding that drops two bits or more, can tell the
one from the other.
-/
namespace TypedLiteral.Binary

/-- The whole part of a quotient, made odd when there is a remainder. -/
def sticky (dividend divisor : Nat) : Nat :=
  if dividend % divisor = 0 then dividend / divisor else dividend / divisor / 2 * 2 + 1

section Sticky

variable (dividend divisor : Nat)

theorem sticky_exact (whole : dividend % divisor = 0) :
    sticky dividend divisor = dividend / divisor := by
  simp [sticky, whole]

theorem sticky_odd (partly : dividend % divisor ≠ 0) :
    sticky dividend divisor = dividend / divisor / 2 * 2 + 1 := by
  simp [sticky, partly]

variable {divisor} (positive : 0 < divisor)
include positive

theorem quotient_exact (whole : dividend % divisor = 0) :
    ((dividend / divisor : ℕ) : ℚ) = dividend / divisor :=
  Nat.cast_div (Nat.dvd_of_mod_eq_zero whole) (by exact_mod_cast positive.ne')

theorem quotient_between (partly : dividend % divisor ≠ 0) :
    ((dividend / divisor : ℕ) : ℚ) < dividend / divisor ∧
      (dividend : ℚ) / divisor < (dividend / divisor + 1 : ℕ) := by
  have size : (0 : ℚ) < divisor := by exact_mod_cast positive
  have whole := Nat.div_add_mod' dividend divisor
  have rest := Nat.mod_lt dividend positive
  rw [lt_div_iff₀ size, div_lt_iff₀ size]
  constructor
  · exact_mod_cast (by omega : dividend / divisor * divisor < dividend)
  · exact_mod_cast (by rw [Nat.succ_mul]; omega : dividend < (dividend / divisor + 1) * divisor)

/-- The marked quotient compares with every even number as the exact one does. -/
theorem sticky_standsIn : StandsIn 2 (sticky dividend divisor) .exact (dividend / divisor) := by
  by_cases whole : dividend % divisor = 0
  · rw [sticky_exact dividend divisor whole, ← quotient_exact dividend positive whole]
    generalize dividend / divisor = quotient
    refine ⟨?_, ?_, fun _ => rfl⟩
    · intro multiple _ less
      exact_mod_cast less
    · intro multiple _ less
      exact_mod_cast less
  · obtain ⟨after, before⟩ := quotient_between dividend positive whole
    rw [sticky_odd dividend divisor whole]
    generalize dividend / divisor = quotient at *
    refine ⟨?_, ?_, ?_⟩
    · rintro _ ⟨half, rfl⟩ less
      have above : ((quotient + 1 : ℕ) : ℤ) ≤ 2 * half := by omega
      exact lt_of_lt_of_le before (by exact_mod_cast above)
    · rintro _ ⟨half, rfl⟩ less
      have below : 2 * half ≤ (quotient : ℤ) := by omega
      exact lt_of_le_of_lt (by exact_mod_cast below) after
    · intro even
      omega

theorem sticky_close : |(dividend : ℚ) / divisor - sticky dividend divisor| < 1 := by
  by_cases whole : dividend % divisor = 0
  · rw [sticky_exact dividend divisor whole, quotient_exact dividend positive whole, sub_self]
    norm_num
  · obtain ⟨after, before⟩ := quotient_between dividend positive whole
    have marked : sticky dividend divisor = dividend / divisor ∨
        sticky dividend divisor = dividend / divisor + 1 := by
      rw [sticky_odd dividend divisor whole]
      omega
    push_cast at before
    rw [abs_lt]
    rcases marked with same | next
    · rw [same]
      constructor <;> linarith
    · rw [next]
      push_cast
      constructor <;> linarith

theorem sticky_eq_iff :
    (sticky dividend divisor : ℚ) = dividend / divisor ↔ dividend % divisor = 0 := by
  constructor
  · intro same
    by_contra partly
    obtain ⟨after, before⟩ := quotient_between dividend positive partly
    rw [← same, Nat.cast_lt] at after before
    omega
  · intro whole
    rw [sticky_exact dividend divisor whole, quotient_exact dividend positive whole]

variable {dividend} (length : bitLength dividend = Scaled.quotientBits + bitLength divisor)
include length

theorem quotient_length :
    weight 2 63 ≤ dividend / divisor ∧ dividend / divisor < weight 2 65 := by
  have present : dividend ≠ 0 := by
    have longer := (bitLength_pos divisor).mpr positive.ne'
    exact (bitLength_pos dividend).mp (by omega)
  have leading := bitLength_leading dividend present
  have bounded := lt_bitLength dividend
  have divisorLeading := bitLength_leading divisor positive.ne'
  have divisorBounded := lt_bitLength divisor
  have some_bit := (bitLength_pos divisor).mpr positive.ne'
  constructor
  · rw [Nat.le_div_iff_mul_le positive]
    calc weight 2 63 * divisor
        ≤ weight 2 63 * weight 2 (bitLength divisor) := Nat.mul_le_mul_left _ divisorBounded.le
      _ = weight 2 (bitLength dividend - 1) := by
          rw [← weight_add, length, Scaled.quotientBits]
          congr 1
          omega
      _ ≤ dividend := leading
  · rw [Nat.div_lt_iff_lt_mul positive]
    calc dividend
        < weight 2 (bitLength dividend) := bounded
      _ = weight 2 65 * weight 2 (bitLength divisor - 1) := by
          rw [← weight_add, length, Scaled.quotientBits]
          congr 1
          omega
      _ ≤ weight 2 65 * divisor := Nat.mul_le_mul_left _ divisorLeading

theorem sticky_length :
    Scaled.quotientBits ≤ bitLength (sticky dividend divisor) ∧
      bitLength (sticky dividend divisor) ≤ Scaled.quotientBits + 1 := by
  obtain ⟨low, high⟩ := quotient_length positive length
  have even : weight 2 63 % 2 = 0 ∧ weight 2 65 % 2 = 0 := by decide
  have bounds : weight 2 63 ≤ sticky dividend divisor ∧ sticky dividend divisor < weight 2 65 := by
    unfold sticky
    split <;> omega
  refine ⟨?_, (bitLength_le _ 65).mpr bounds.2⟩
  have longer := bitLength_mono bounds.1
  rwa [bitLength_weight] at longer

end Sticky

theorem quotient_shifted (numerator denominator : Nat) (nonzero : numerator ≠ 0)
    (positive : 0 < denominator) : ∃ dividend divisor exponent,
      dividend = numerator * weight 2 (-exponent).toNat ∧
      divisor = denominator * weight 2 exponent.toNat ∧ 0 < divisor ∧
      bitLength dividend = Scaled.quotientBits + bitLength divisor ∧
      (numerator : ℚ) / denominator / 2 ^ exponent = dividend / divisor ∧
      Scaled.quotient numerator denominator = .ok ⟨sticky dividend divisor, exponent⟩ := by
  unfold Scaled.quotient divide
  generalize place : (Scaled.quotientBits : ℤ) - bitLength numerator + bitLength denominator = shift
  -- The shift lengthens the numerator, or the denominator when it is too short.
  by_cases upward : 0 ≤ shift
  · obtain ⟨count, rfl⟩ := Int.eq_ofNat_of_zero_le upward
    refine ⟨numerator * weight 2 count, denominator, -count, by simp, by simp [weight], positive,
      ?_, ?_, ?_⟩
    · rw [bitLength_scale _ _ nonzero]
      omega
    · rw [zpow_neg, zpow_natCast]
      push_cast [cast_weight]
      field_simp
    · simp [positive.ne', Except.map, sticky]
  · obtain ⟨count, opposite⟩ := Int.eq_ofNat_of_zero_le (show 0 ≤ -shift by omega)
    have scaled := Nat.mul_pos positive (bit_pos count)
    refine ⟨numerator, denominator * weight 2 count, count, by simp [weight], by simp, scaled,
      ?_, ?_, ?_⟩
    · rw [bitLength_scale _ _ positive.ne']
      omega
    · rw [zpow_natCast]
      push_cast [cast_weight]
      field_simp
    · simp [upward, opposite, scaled.ne', Except.map, sticky]

theorem quotient_standsFor (numerator denominator : Nat) (nonzero : numerator ≠ 0)
    (positive : 0 < denominator) : ∃ number,
      Scaled.quotient numerator denominator = .ok number ∧
      number.StandsFor ((numerator : ℚ) / denominator) := by
  obtain ⟨dividend, divisor, exponent, _, _, scaled, length, same, done⟩ :=
    quotient_shifted numerator denominator nonzero positive
  refine ⟨_, done, Or.inr ⟨(sticky_length scaled length).1, ?_⟩⟩
  rw [same]
  exact sticky_standsIn dividend scaled

section Coarse

variable {n precision : Nat} {exact : ℚ} (standsIn : StandsIn 2 n .exact exact)
variable (few : precision + 2 ≤ bitLength n)
include standsIn few

theorem isRounding_iff (result : Nat × Direction) :
    IsRounding (weight 2 (bitLength n - precision)) exact result ↔
      roundToBits n precision .exact = result := by
  have rounded := round_nearest 2 n precision .exact exact standsIn (by decide)
    (weight_dvd 2 (show 2 ≤ bitLength n - precision by omega))
  constructor
  · exact rounded.unique (bit_pos _)
  · rintro rfl
    exact rounded

theorem tie_iff (lower : Nat) :
    2 * exact = 2 * (lower * (weight 2 (bitLength n - precision) : ℕ)) +
        (weight 2 (bitLength n - precision) : ℕ) ↔
      2 * n = 2 * (lower * weight 2 (bitLength n - precision)) +
        weight 2 (bitLength n - precision) := by
  obtain ⟨quarter, unit⟩ : 4 ∣ weight 2 (bitLength n - precision) :=
    weight_dvd 2 (show 2 ≤ bitLength n - precision by omega)
  have even : 2 ∣ lower * (4 * quarter) + 2 * quarter := ⟨lower * (2 * quarter) + quarter, by ring⟩
  have middle := standsIn.exact_eq_iff even
  push_cast at middle
  rw [unit]
  push_cast
  constructor
  · intro tie
    have same := middle.mp (by linarith)
    omega
  · intro tie
    have same := middle.mpr (by omega)
    linarith

end Coarse

/-- A quotient has 64 or 65 bits and is less than one of its last bits away from the exact
one; it is the exact one just when the scaled division leaves no remainder. Rounding it to
62 bits at most rounds the exact quotient: a tie of the one is a tie of the other, and the
nearest multiple of the unit, even at a tie, comes out with the direction of the error. -/
theorem quotient_rounds_as_exact (numerator denominator : Nat) (present : 0 < numerator)
    (positive : 0 < denominator) : ∃ mantissa exponent,
      Scaled.quotient numerator denominator = .ok ⟨mantissa, exponent⟩ ∧
      (bitLength mantissa = 64 ∨ bitLength mantissa = 65) ∧
      |(numerator : ℚ) / denominator - mantissa * 2 ^ exponent| < 2 ^ exponent ∧
      ((mantissa : ℚ) * 2 ^ exponent = numerator / denominator ↔
        numerator * weight 2 (-exponent).toNat % (denominator * weight 2 exponent.toNat) = 0) ∧
      ∀ precision ≤ 62,
        let unit := weight 2 (bitLength mantissa - precision)
        let exact : ℚ := numerator / (denominator * 2 ^ exponent)
        (∀ result, IsRounding unit exact result ↔ roundToBits mantissa precision .exact = result) ∧
        ∀ lower : Nat, 2 * exact = 2 * (lower * unit) + unit ↔
          2 * mantissa = 2 * (lower * unit) + unit := by
  obtain ⟨dividend, divisor, exponent, shifted, widened, scaled, length, same, done⟩ :=
    quotient_shifted numerator denominator present.ne' positive
  have standsIn := sticky_standsIn dividend scaled
  obtain ⟨long, short⟩ := sticky_length scaled length
  rw [Scaled.quotientBits] at long short
  have scale : (0 : ℚ) < 2 ^ exponent := by positivity
  have value : (numerator : ℚ) / denominator = dividend / divisor * 2 ^ exponent :=
    (div_eq_iff scale.ne').mp same
  refine ⟨sticky dividend divisor, exponent, done, by omega, ?_, ?_, ?_⟩
  · rw [value, ← sub_mul, abs_mul, abs_of_pos scale]
    exact mul_lt_of_lt_one_left scale (sticky_close dividend scaled)
  · rw [value, mul_left_inj' scale.ne', ← shifted, ← widened]
    exact sticky_eq_iff dividend scaled
  · intro precision few unit exact
    have quotient : exact = dividend / divisor := by rw [← same, div_div]
    rw [quotient]
    exact ⟨isRounding_iff standsIn (by omega), tie_iff standsIn (by omega)⟩

/-- The quotient is cut in the middle between two multiples, and only its last bit tells
that the exact one is larger. -/
theorem quotient_rounds_past_tie :
    Scaled.quotient 27670116110564330497 3 = .ok ⟨18446744073709553665, -1⟩ ∧
      IsRounding (weight 2 (65 - 53)) ((27670116110564330497 : ℕ) / ((3 : ℕ) * 2 ^ (-1 : ℤ)))
        (18446744073709555712, .up) ∧
      roundToBits 18446744073709553664 53 .exact = (18446744073709551616, .down) := by
  obtain ⟨mantissa, exponent, done, _, _, _, rounds⟩ :=
    quotient_rounds_as_exact 27670116110564330497 3 (by decide) (by decide)
  have found : Scaled.quotient 27670116110564330497 3 = .ok ⟨18446744073709553665, -1⟩ := by rfl
  cases done.symm.trans found
  exact ⟨found, ((rounds 53 (by decide)).1 _).mpr (by decide), by decide⟩

end TypedLiteral.Binary
