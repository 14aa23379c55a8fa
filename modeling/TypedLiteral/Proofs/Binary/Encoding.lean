import TypedLiteral.Proofs.Binary.Scaled

/-!
The encoder never fails and never writes past the width of its format. A number on
a step is encoded as the pattern of that step, however long the mantissa is that
holds it, unless it is shorter than a subnormal's own bits; from the step of
infinity on it is encoded as infinity.
-/
namespace TypedLiteral.Binary

theorem leadingBits_ok (n count : Nat) (few : count ≤ 64) (held : count ≤ bitLength n) :
    leadingBits n count = .ok (n / weight 2 (bitLength n - count)) := by
  simp [leadingBits, few, held]

namespace Format

variable {format : Format} {number : Scaled} {count significand : Nat}

theorem leading_significand {left right : ℤ} {mantissa : Nat} (zero : mantissa ≠ 0)
    (nonzero : significand ≠ 0) (same : (mantissa : ℚ) * 2 ^ left = significand * 2 ^ right) :
    mantissa / weight 2 (bitLength mantissa - min (bitLength mantissa) (bitLength significand)) *
      weight 2 (bitLength significand - min (bitLength mantissa) (bitLength significand)) =
      significand := by
  rcases aligned same with ⟨zeros, value, _⟩ | ⟨zeros, value, _⟩
  · have longer : bitLength mantissa = bitLength significand + zeros := by
      rw [value, bitLength_scale _ _ nonzero]
    rw [Nat.min_eq_right (by omega), longer, Nat.add_sub_cancel_left, Nat.sub_self, value,
      Nat.mul_div_cancel _ (bit_pos zeros)]
    exact Nat.mul_one _
  · have shorter : bitLength significand = bitLength mantissa + zeros := by
      rw [value, bitLength_scale _ _ zero]
    rw [Nat.min_eq_left (by omega), shorter, Nat.add_sub_cancel_left, Nat.sub_self, value]
    simp [weight]

theorem pattern_cut (negative : Bool) (exponent bits : Nat)
    (low : weight 2 format.fractionBits ≤ bits) (high : bits < 2 * weight 2 format.fractionBits) :
    format.pattern negative (exponent + 1) (bits % weight 2 format.fractionBits) =
      format.pattern negative 0 (exponent * weight 2 format.fractionBits + bits) := by
  rw [pattern_split, Nat.mod_eq_sub_mod low, Nat.mod_eq_of_lt (by omega), Nat.succ_mul]
  congr 1
  omega

theorem leading_normal (regular : format.Regular)
    (low : weight 2 format.fractionBits ≤ significand)
    (high : significand < 2 * weight 2 format.fractionBits)
    (same : (number.mantissa : ℚ) * 2 ^ number.exponent =
      significand * 2 ^ (count + format.leastExponent)) :
    number.leadingExponent = count + format.minExponent ∧
      ((format.maxExponent : ℤ) < number.leadingExponent ↔
        format.topStep ≤ count * weight 2 format.fractionBits + significand) := by
  have positive := bit_pos format.fractionBits
  have precision := regular.precision_eq
  obtain ⟨range, special, largest⟩ := regular.special_eq
  have full := bitLength_normal regular low high
  have place : number.leadingExponent = count + format.minExponent := by
    rw [leading_onStep (by omega) same, full, leastExponent, precision]
    push_cast
    ring
  refine ⟨place, ?_⟩
  rw [place, minExponent, topStep, special]
  constructor
  · intro beyond
    have rows := Nat.mul_le_mul_right (weight 2 format.fractionBits)
      (show range + 1 ≤ count by omega)
    rw [Nat.add_mul] at rows ⊢
    omega
  · intro reached
    by_contra within
    have rows := Nat.mul_le_mul_right (weight 2 format.fractionBits)
      (show count ≤ range by omega)
    rw [Nat.add_mul] at reached
    omega

theorem encode_normal (regular : format.Regular) (negative : Bool)
    (zero : number.mantissa ≠ 0)
    (low : weight 2 format.fractionBits ≤ significand)
    (high : significand < 2 * weight 2 format.fractionBits)
    (same : (number.mantissa : ℚ) * 2 ^ number.exponent =
      significand * 2 ^ (count + format.leastExponent)) :
    number.encode format negative = .ok (format.pattern negative 0
      (min (count * weight 2 format.fractionBits + significand) format.topStep)) := by
  have positive := bit_pos format.fractionBits
  have precise := regular.precise
  obtain ⟨place, beyond⟩ := leading_normal regular low high same
  rw [Scaled.encode]
  simp only [zero, beyond, ↓reduceIte]
  by_cases reached : format.topStep ≤ count * weight 2 format.fractionBits + significand
  · simp only [reached, ↓reduceIte]
    rw [Nat.min_eq_right reached, pattern_split, topStep, Nat.add_zero]
  · have normal : format.minExponent ≤ number.leadingExponent := by omega
    have field : number.leadingExponent + format.maxExponent = (count + 1 : ℕ) := by
      rw [place, minExponent]
      push_cast
      ring
    have kept := leading_significand zero (by omega) same
    rw [bitLength_normal regular low high] at kept
    simp only [reached, normal, ↓reduceIte]
    rw [leadingBits_ok _ _ (by omega) (Nat.min_le_left _ _)]
    simp only [Except.map, kept, field, Int.toNat_natCast]
    rw [pattern_cut negative count significand low high, Nat.min_eq_left (by omega)]

theorem encode_subnormal (regular : format.Regular) (negative : Bool)
    (zero : number.mantissa ≠ 0)
    (low : significand < weight 2 format.fractionBits)
    (room : bitLength significand ≤ bitLength number.mantissa)
    (same : (number.mantissa : ℚ) * 2 ^ number.exponent =
      significand * 2 ^ (((0 : ℕ) : ℤ) + format.leastExponent))
    (nonzero : significand ≠ 0) :
    number.encode format negative = .ok (format.pattern negative 0 significand) := by
  have precision := regular.precision_eq
  have precise := regular.precise
  obtain ⟨range, special, largest⟩ := regular.special_eq
  have short : bitLength significand ≤ format.fractionBits := (bitLength_le _ _).mpr low
  have leading := leading_onStep nonzero same
  have kept := leading_significand zero nonzero same
  rw [Nat.min_eq_right room, Nat.sub_self, show weight 2 0 = 1 from rfl, Nat.mul_one] at kept
  have held : (number.leadingExponent - format.leastExponent + 1).toNat =
      bitLength significand := by
    rw [leading]
    omega
  rw [leastExponent] at leading
  have subnormal : ¬ format.minExponent ≤ number.leadingExponent := by omega
  have finite : ¬ (format.maxExponent : ℤ) < number.leadingExponent := by
    rw [minExponent] at subnormal
    omega
  rw [Scaled.encode]
  simp only [zero, finite, subnormal, ↓reduceIte]
  rw [held, Nat.min_eq_left room, leadingBits_ok _ _ (by omega) room, kept]
  rfl

/-- A number on a step is encoded as the pattern of the step, or of infinity. A
subnormal needs a mantissa that is as long as its fraction. -/
theorem encode_onStep (regular : format.Regular) (negative : Bool) (step : Nat)
    (onStep : number.OnStep format step)
    (room : step < weight 2 format.fractionBits → bitLength step ≤ bitLength number.mantissa) :
    number.encode format negative = .ok (format.pattern negative 0 (min step format.topStep)) := by
  obtain ⟨count, significand, place, low, high, same, empty⟩ := onStep_row onStep
  by_cases zero : number.mantissa = 0
  · rw [step_zero onStep zero]
    simp [Scaled.encode, zero]
  · have nonzero := mt empty.mp zero
    rcases Nat.lt_or_ge significand (weight 2 format.fractionBits) with subnormal | normal
    · have first : count = 0 := low.resolve_right (by omega)
      subst first
      rw [Nat.zero_mul, Nat.zero_add] at place
      subst place
      rw [Nat.min_eq_left (subnormal.le.trans (fraction_le_topStep regular))]
      exact encode_subnormal regular negative zero subnormal (room subnormal) same nonzero
    · rw [place]
      exact encode_normal regular negative zero normal high same

theorem encode_long (regular : format.Regular) (negative : Bool) (step : Nat)
    (onStep : number.OnStep format step) (long : number.Long) :
    number.encode format negative = .ok (format.pattern negative 0 (min step format.topStep)) := by
  refine encode_onStep regular negative step onStep fun subnormal => ?_
  have precision := regular.precision_eq
  have precise := regular.precise
  rcases long with zero | long
  · rw [step_zero onStep zero]
    exact Nat.zero_le _
  · have short := (bitLength_le step _).mpr subnormal
    rw [Scaled.quotientBits] at long
    omega

theorem leadingBits_lt (n count : Nat) (held : count ≤ bitLength n) :
    n / weight 2 (bitLength n - count) < weight 2 count := by
  rw [Nat.div_lt_iff_lt_mul (bit_pos _), ← weight_add, Nat.add_sub_cancel' held]
  exact lt_bitLength n

/-- The encoder succeeds on every number, rounded or not. -/
theorem encode_total (regular : format.Regular) (number : Scaled) (negative : Bool) :
    ∃ pattern, number.encode format negative = .ok pattern ∧
      pattern < weight 2 (format.exponentBits + format.fractionBits + 1) := by
  have precise := regular.precise
  have precision := regular.precision_eq
  have positive := bit_pos format.fractionBits
  obtain ⟨range, special, largest⟩ := regular.special_eq
  rw [Scaled.encode]
  by_cases zero : number.mantissa = 0
  · simp only [zero, ↓reduceIte]
    exact ⟨_, rfl, format.pattern_bounded negative (Nat.zero_le _) positive⟩
  by_cases beyond : (format.maxExponent : ℤ) < number.leadingExponent
  · simp only [zero, beyond, ↓reduceIte]
    exact ⟨_, rfl, format.pattern_bounded negative (Nat.le_refl _) positive⟩
  by_cases normal : format.minExponent ≤ number.leadingExponent
  · simp only [zero, beyond, normal, ↓reduceIte]
    rw [leadingBits_ok _ _ (by omega) (Nat.min_le_left _ _)]
    exact ⟨_, rfl, format.pattern_bounded negative (by omega) (Nat.mod_lt _ positive)⟩
  · simp only [zero, beyond, normal, ↓reduceIte]
    have few : (number.leadingExponent - format.leastExponent + 1).toNat ≤ format.fractionBits := by
      rw [leastExponent]
      omega
    rw [leadingBits_ok _ _ (by omega) (Nat.min_le_right _ _)]
    refine ⟨_, rfl, format.pattern_bounded negative (Nat.zero_le _) ?_⟩
    exact (leadingBits_lt _ _ (Nat.min_le_right _ _)).trans_le (weight_le (by omega))

theorem encode_over (regular : format.Regular) (negative : Bool) (incoming : Direction)
    (nonzero : number.mantissa ≠ 0) (beyond : (format.maxExponent : ℤ) < number.leadingExponent) :
    (number.round format incoming).1.encode format negative =
      .ok (format.pattern negative 0 format.topStep) := by
  have precision := regular.precision_eq
  obtain ⟨range, special, largest⟩ := regular.special_eq
  have normal : format.minExponent ≤ number.leadingExponent := by
    rw [minExponent]
    omega
  -- A carry only lengthens the mantissa, so the leading bit does not move down.
  have longer : bitLength number.mantissa ≤
      bitLength (roundToBits number.mantissa format.precision incoming).1 := by
    rcases round_length number.mantissa format.precision incoming (by omega) with kept | carry
    · exact kept.ge
    · rw [carry, bitLength_weight]
      exact Nat.le_succ _
  have present := (bitLength_pos number.mantissa).mpr nonzero
  have rounded := (bitLength_pos _).mp (present.trans_le longer)
  rw [Scaled.round, precisionAt]
  simp only [nonzero, normal, ↓reduceIte]
  rw [Scaled.leadingExponent] at beyond
  have still : (format.maxExponent : ℤ) < Scaled.leadingExponent
      ⟨(roundToBits number.mantissa format.precision incoming).1, number.exponent⟩ := by
    rw [Scaled.leadingExponent]
    dsimp only
    omega
  simp only [Scaled.encode, rounded, still, ↓reduceIte]
  rw [pattern_split, topStep, Nat.add_zero]

end Format

end TypedLiteral.Binary
