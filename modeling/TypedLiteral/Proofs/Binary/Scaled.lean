import TypedLiteral.Proofs.Binary.NearestEven

/-!
Scaled numbers against the ladder of a format. The exponent of a number that is on
a step tells the row, and the precision there is just the length of the step's
significand, so rounding leaves the number alone.
-/
namespace TypedLiteral.Binary

namespace Scaled

def value (number : Scaled) : ℚ := number.mantissa * 2 ^ number.exponent

def OnStep (number : Scaled) (format : Format) (step : Nat) : Prop :=
  number.value = format.rung step * 2 ^ format.leastExponent

/-- The number has the bits that every rounding and every subnormal needs. -/
def Long (number : Scaled) : Prop :=
  number.mantissa = 0 ∨ quotientBits ≤ bitLength number.mantissa

/-- The number is all that a rounding needs to know of a value. -/
def StandsFor (number : Scaled) (value : ℚ) : Prop :=
  (number = zero ∧ value = 0) ∨ (quotientBits ≤ bitLength number.mantissa ∧
    StandsIn 2 number.mantissa .exact (value / 2 ^ number.exponent))

end Scaled

theorem aligned {first second : Nat} {left right : ℤ}
    (same : (first : ℚ) * 2 ^ left = second * 2 ^ right) :
    (∃ zeros : ℕ, first = second * weight 2 zeros ∧ left + zeros = right) ∨
      ∃ zeros : ℕ, second = first * weight 2 zeros ∧ right + zeros = left := by
  rcases le_total left right with below | above
  · left
    obtain ⟨zeros, apart⟩ := Int.le.dest below
    have scale : (2 : ℚ) ^ left ≠ 0 := by positivity
    refine ⟨zeros, ?_, apart⟩
    rw [← apart, zpow_add₀ (by norm_num), zpow_natCast, mul_comm ((2 : ℚ) ^ left), ← mul_assoc,
      ← cast_weight] at same
    exact_mod_cast mul_right_cancel₀ scale same
  · right
    obtain ⟨zeros, apart⟩ := Int.le.dest above
    have scale : (2 : ℚ) ^ right ≠ 0 := by positivity
    refine ⟨zeros, ?_, apart⟩
    rw [← apart, zpow_add₀ (by norm_num), zpow_natCast, mul_comm ((2 : ℚ) ^ right), ← mul_assoc,
      ← cast_weight] at same
    exact_mod_cast (mul_right_cancel₀ scale same).symm

namespace Format

variable {format : Format} {number : Scaled} {count significand : Nat}

theorem leading_onStep (nonzero : significand ≠ 0)
    (same : (number.mantissa : ℚ) * 2 ^ number.exponent =
      significand * 2 ^ (count + format.leastExponent)) :
    number.leadingExponent = bitLength significand + count + format.leastExponent - 1 := by
  rw [Scaled.leadingExponent]
  rcases aligned same with ⟨zeros, mantissa, apart⟩ | ⟨zeros, mantissa, apart⟩
  · rw [mantissa, bitLength_scale _ _ nonzero]
    push_cast
    omega
  · have present : number.mantissa ≠ 0 := fun zero => nonzero (by rw [mantissa, zero, Nat.zero_mul])
    rw [mantissa, bitLength_scale _ _ present]
    push_cast
    omega

theorem bitLength_normal (regular : format.Regular)
    (low : weight 2 format.fractionBits ≤ significand)
    (high : significand < 2 * weight 2 format.fractionBits) :
    bitLength significand = format.precision := by
  rw [regular.precision_eq]
  exact bitLength_eq _ _ low (by rw [weight_succ]; omega)

theorem precisionAt_onStep (regular : format.Regular) (nonzero : significand ≠ 0)
    (low : count = 0 ∨ weight 2 format.fractionBits ≤ significand)
    (high : significand < 2 * weight 2 format.fractionBits) :
    format.precisionAt (bitLength significand + count + format.leastExponent - 1) =
      some (bitLength significand) := by
  have precision := regular.precision_eq
  have positive := (bitLength_pos significand).mpr nonzero
  have bounded : bitLength significand ≤ format.fractionBits + 1 :=
    (bitLength_le _ _).mpr (by rw [weight_succ]; omega)
  rw [precisionAt, leastExponent]
  by_cases normal : weight 2 format.fractionBits ≤ significand
  · have full := bitLength_normal regular normal high
    rw [if_pos (by omega), full]
  · have short : bitLength significand ≤ format.fractionBits :=
      (bitLength_le _ _).mpr (by omega)
    rw [if_neg (by omega), if_pos (by omega)]
    congr 1
    omega

theorem onStep_row {step : Nat} (onStep : number.OnStep format step) :
    ∃ count significand, step = count * weight 2 format.fractionBits + significand ∧
      (count = 0 ∨ weight 2 format.fractionBits ≤ significand) ∧
      significand < 2 * weight 2 format.fractionBits ∧
      (number.mantissa : ℚ) * 2 ^ number.exponent =
        significand * 2 ^ (count + format.leastExponent) ∧
      (significand = 0 ↔ number.mantissa = 0) := by
  obtain ⟨count, significand, place, low, high⟩ := format.step_row step
  have same : (number.mantissa : ℚ) * 2 ^ number.exponent =
      significand * 2 ^ (count + format.leastExponent) := by
    rw [Scaled.OnStep, Scaled.value, place, format.rung_row _ _ low high.le] at onStep
    rw [onStep, zpow_add₀ (by norm_num), zpow_natCast, ← cast_weight]
    push_cast
    ring
  refine ⟨count, significand, place, low, high, same, ?_⟩
  constructor
  · intro zero
    have scale : (2 : ℚ) ^ number.exponent ≠ 0 := by positivity
    simpa [zero, scale] using same
  · intro zero
    have scale : (2 : ℚ) ^ (count + format.leastExponent) ≠ 0 := by positivity
    simpa [zero, scale] using same.symm

theorem step_zero {step : Nat} (onStep : number.OnStep format step) (zero : number.mantissa = 0) :
    step = 0 := by
  obtain ⟨count, significand, place, low, _, _, empty⟩ := onStep_row onStep
  have positive := bit_pos format.fractionBits
  have clear := empty.mpr zero
  have first : count = 0 := low.resolve_right (by omega)
  rw [place, clear, first, Nat.zero_mul]

theorem round_onStep (regular : format.Regular) (step : Nat) (incoming : Direction)
    (onStep : number.OnStep format step) : number.round format incoming = (number, incoming) := by
  by_cases zero : number.mantissa = 0
  · simp [Scaled.round, zero]
  obtain ⟨count, significand, _, low, high, same, empty⟩ := onStep_row onStep
  have nonzero := mt empty.mp zero
  have divides : weight 2 (bitLength number.mantissa - bitLength significand) ∣
      number.mantissa := by
    rcases aligned same with ⟨zeros, mantissa, _⟩ | ⟨zeros, mantissa, _⟩
    · rw [mantissa, bitLength_scale _ _ nonzero, Nat.add_sub_cancel_left]
      exact Nat.dvd_mul_left _ _
    · rw [mantissa, bitLength_scale _ _ zero, Nat.sub_eq_zero_of_le (Nat.le_add_right _ _)]
      exact Nat.one_dvd _
  rw [Scaled.round, leading_onStep nonzero same, precisionAt_onStep regular nonzero low high]
  simp only [zero, ↓reduceIte]
  rw [round_multiple _ _ _ divides]

end Format

end TypedLiteral.Binary
