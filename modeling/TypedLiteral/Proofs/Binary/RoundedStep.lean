import TypedLiteral.Proofs.Binary.Scaled

/-!
Rounding a scaled number to a format puts it on the step nearest to the exact
number that its mantissa stands in for: in the rows of the normal numbers, among
the subnormals with fewer bits or none, and below half of the least of them.
-/
namespace TypedLiteral.Binary

theorem NearestMultiple.scale {fine coarse quotient : Nat} {exact factor : ℚ}
    (positive : 0 < factor) (same : (fine : ℚ) * factor = coarse)
    (nearest : NearestMultiple fine exact quotient) :
    NearestMultiple coarse (exact * factor) quotient := by
  have distance : |(quotient : ℚ) * coarse - exact * factor| =
      |(quotient : ℚ) * fine - exact| * factor := by
    rw [← same, ← mul_assoc, ← sub_mul, abs_mul, abs_of_pos positive]
  constructor
  · rw [distance, ← same, ← mul_assoc]
    exact mul_le_mul_of_nonneg_right nearest.near positive.le
  · intro tie
    rw [distance, ← same, ← mul_assoc] at tie
    exact nearest.even (mul_right_cancel₀ positive.ne' tie)

namespace Format

variable {format : Format} {number : Scaled} {exact : ℚ}

theorem precisionAt_cases (regular : format.Regular) (leading : ℤ) :
    (format.precisionAt leading = none ∧ leading + 1 < format.leastExponent) ∨
      ∃ precision count : ℕ, format.precisionAt leading = some precision ∧
        precision ≤ format.precision ∧
        (precision : ℤ) + count + format.leastExponent = leading + 1 ∧
        (count = 0 ∨ precision = format.precision) := by
  have width := regular.precision_eq
  rw [precisionAt, leastExponent]
  by_cases normal : format.minExponent ≤ leading
  · obtain ⟨count, apart⟩ := Int.le.dest normal
    right
    exact ⟨format.precision, count, by simp [normal], le_refl _, by omega, Or.inr rfl⟩
  · simp only [normal, ↓reduceIte]
    by_cases available : 0 ≤ (format.precision : ℤ) - (format.minExponent - leading)
    · right
      obtain ⟨precision, held⟩ := Int.eq_ofNat_of_zero_le available
      refine ⟨precision, 0, ?_, by omega, by omega, Or.inl rfl⟩
      simp only [held]
      simp
    · left
      simp only [available, ↓reduceIte, true_and]
      omega

theorem nearestRung_zero (regular : format.Regular) {scaled : ℚ} (nonneg : 0 ≤ scaled)
    (small : 2 * scaled ≤ 1) : format.NearestRung scaled 0 := by
  have positive : (1 : ℚ) ≤ weight 2 format.fractionBits := by
    exact_mod_cast bit_pos format.fractionBits
  have nearest : NearestMultiple (weight 2 0) scaled 0 := by
    refine ⟨?_, fun _ => rfl⟩
    rw [Nat.cast_zero, zero_mul, zero_sub, abs_neg, abs_of_nonneg nonneg, cast_weight]
    simpa using small
  have rung := nearestRung_of_row regular nearest (Or.inl rfl) (by
    push_cast [cast_weight] at positive ⊢
    linarith)
  simpa using rung

theorem below_half (below : number.leadingExponent + 1 < format.leastExponent)
    (high : exact ≤ weight 2 (bitLength number.mantissa)) :
    2 * (exact * 2 ^ (number.exponent - format.leastExponent)) ≤ 1 := by
  have scale : (0 : ℚ) ≤ 2 ^ (number.exponent - format.leastExponent) := by positivity
  have scaled := mul_le_mul_of_nonneg_right high scale
  have small : (weight 2 (bitLength number.mantissa) : ℚ) *
      2 ^ (number.exponent - format.leastExponent) ≤ 2 ^ (-1 : ℤ) := by
    rw [cast_weight, ← zpow_natCast, ← zpow_add₀ (by norm_num)]
    refine zpow_le_zpow_right₀ (by norm_num) ?_
    rw [Scaled.leadingExponent] at below
    omega
  norm_num at small
  linarith

section Row

variable {precision count quotient : Nat} (regular : format.Regular)
variable (place : (precision : ℤ) + count + format.leastExponent = number.leadingExponent + 1)
include regular place

theorem row_reached (present : number.mantissa ≠ 0)
    (row : count = 0 ∨ precision = format.precision)
    (low : (weight 2 (bitLength number.mantissa - 1) : ℚ) ≤ exact) :
    count = 0 ∨ ((weight 2 format.fractionBits * weight 2 count : ℕ) : ℚ) ≤
      exact * 2 ^ (number.exponent - format.leastExponent) := by
  have width := regular.precision_eq
  have some_bit := (bitLength_pos number.mantissa).mpr present
  have scale : (0 : ℚ) ≤ 2 ^ (number.exponent - format.leastExponent) := by positivity
  rw [Scaled.leadingExponent] at place
  rcases row with first | full
  · exact Or.inl first
  · right
    have leading : ((bitLength number.mantissa - 1 : ℕ) : ℤ) +
        (number.exponent - format.leastExponent) = (format.fractionBits + count : ℕ) := by
      push_cast
      omega
    rw [← weight_add, ← weight_shift leading]
    exact mul_le_mul_of_nonneg_right low scale

theorem row_within (bounded : precision ≤ format.precision)
    (high : exact ≤ weight 2 (bitLength number.mantissa)) :
    exact * 2 ^ (number.exponent - format.leastExponent) ≤
      (2 * weight 2 format.fractionBits * weight 2 count : ℕ) := by
  have width := regular.precision_eq
  have scale : (0 : ℚ) ≤ 2 ^ (number.exponent - format.leastExponent) := by positivity
  rw [Scaled.leadingExponent] at place
  have top : weight 2 (precision + count) ≤ 2 * weight 2 format.fractionBits * weight 2 count := by
    rw [Nat.mul_comm 2, ← weight_succ, ← weight_add]
    exact weight_le (by omega)
  calc exact * 2 ^ (number.exponent - format.leastExponent)
      ≤ weight 2 (bitLength number.mantissa) *
          2 ^ (number.exponent - format.leastExponent) :=
        mul_le_mul_of_nonneg_right high scale
    _ = weight 2 (precision + count) := weight_shift (by push_cast; omega)
    _ ≤ _ := by exact_mod_cast top

theorem round_row (present : number.mantissa ≠ 0)
    (fits : precision ≤ bitLength number.mantissa) (bounded : precision ≤ format.precision)
    (row : count = 0 ∨ precision = format.precision)
    (low : (weight 2 (bitLength number.mantissa - 1) : ℚ) ≤ exact)
    (high : exact ≤ weight 2 (bitLength number.mantissa))
    (nearest : NearestMultiple (weight 2 (bitLength number.mantissa - precision)) exact quotient) :
    format.NearestRung (exact * 2 ^ (number.exponent - format.leastExponent))
        (count * weight 2 format.fractionBits + quotient) ∧
      (quotient * weight 2 (bitLength number.mantissa - precision) : ℚ) * 2 ^ number.exponent =
        format.rung (count * weight 2 format.fractionBits + quotient) *
          2 ^ format.leastExponent := by
  have reached := row_reached regular place present row low
  have within := row_within regular place bounded high
  have least : (2 : ℚ) ^ format.leastExponent ≠ 0 := by positivity
  rw [Scaled.leadingExponent] at place
  -- A unit of the mantissa is the distance of the row.
  have unit : (weight 2 (bitLength number.mantissa - precision) : ℚ) *
      2 ^ (number.exponent - format.leastExponent) = weight 2 count := weight_shift (by omega)
  have scaled := nearest.scale (by positivity) unit
  refine ⟨nearestRung_of_row regular scaled reached within, ?_⟩
  obtain ⟨normal, last⟩ := nearest_in_row scaled reached within
  rw [format.rung_row _ _ normal last, Nat.cast_mul, ← unit, zpow_sub₀ (by norm_num)]
  field_simp

end Row

/-- A number of 64 bits or more that stands in for an exact one among the even
numbers is rounded to the step nearest to that one. A rounded number other than
zero is as long as the number was. -/
theorem round_nearestRung (regular : format.Regular)
    (long : Scaled.quotientBits ≤ bitLength number.mantissa)
    (standsIn : StandsIn 2 number.mantissa .exact exact) :
    ∃ step, format.NearestRung (exact * 2 ^ (number.exponent - format.leastExponent)) step ∧
      (number.round format .exact).1.OnStep format step ∧
      ((number.round format .exact).1.mantissa = 0 ∨
        bitLength number.mantissa ≤ bitLength (number.round format .exact).1.mantissa) := by
  have precise := regular.precise
  rw [Scaled.quotientBits] at long
  have nonzero := (bitLength_pos number.mantissa).mp (by omega)
  have low := standsIn.le_exact (weight_dvd 2 (show 1 ≤ bitLength number.mantissa - 1 by omega))
    (bitLength_leading _ nonzero)
  have high := standsIn.exact_le (weight_dvd 2 (show 1 ≤ bitLength number.mantissa by omega))
    (lt_bitLength number.mantissa).le
  rw [Scaled.round]
  simp only [nonzero, ↓reduceIte]
  rcases precisionAt_cases regular number.leadingExponent with
    ⟨none, below⟩ | ⟨precision, count, held, bounded, place, row⟩
  · -- The format holds no bit of a number below half of its least one.
    rw [none]
    have scale : (0 : ℚ) ≤ 2 ^ (number.exponent - format.leastExponent) := by positivity
    refine ⟨0, nearestRung_zero regular ?_ ?_, ?_, Or.inl rfl⟩
    · exact mul_nonneg ((Nat.cast_nonneg _).trans low) scale
    · exact below_half below high
    · simp [Scaled.OnStep, Scaled.value, Scaled.zero, rung]
  · rw [held]
    obtain ⟨quotient, value, nearest, _⟩ := round_nearest 2 number.mantissa precision .exact exact
      standsIn (by decide) (weight_dvd 2 (show 2 ≤ bitLength number.mantissa - precision by omega))
    obtain ⟨nearestRung, same⟩ := round_row regular place nonzero (by omega) bounded row
      low high nearest
    refine ⟨_, nearestRung, ?_, round_longer _ _ _⟩
    dsimp only [Scaled.OnStep, Scaled.value]
    rw [← same, value]
    push_cast
    rfl

/-- Rounding what stands for a value gives the step nearest to the value. -/
theorem round_standsFor (regular : format.Regular) {value : ℚ}
    (standsFor : number.StandsFor value) :
    ∃ step, format.NearestRung (value / 2 ^ format.leastExponent) step ∧
      (number.round format .exact).1.OnStep format step ∧
      (number.round format .exact).1.Long := by
  rcases standsFor with ⟨zero, nothing⟩ | ⟨long, standsIn⟩
  · subst zero nothing
    refine ⟨0, ?_, ?_, Or.inl rfl⟩
    · rw [zero_div]
      exact nearestRung_zero regular le_rfl (by norm_num)
    · simp [Scaled.OnStep, Scaled.value, Scaled.round, Scaled.zero, rung]
  · obtain ⟨step, nearest, onStep, length⟩ := round_nearestRung regular long standsIn
    refine ⟨step, ?_, onStep, length.imp_right long.trans⟩
    have scaled : value / 2 ^ number.exponent * 2 ^ (number.exponent - format.leastExponent) =
        value / 2 ^ format.leastExponent := by
      rw [zpow_sub₀ (by norm_num)]
      field_simp
    rwa [← scaled]

end Format

end TypedLiteral.Binary
