import TypedLiteral.Proofs.Binary.NearestEven

/-!
Widening is exact: the wider pattern stands for the number that the narrower one
stands for. A subnormal of the narrower format becomes a normal number, so its
leading bit is dropped from the fraction.
-/
namespace TypedLiteral.Binary.Format

/-- The target has a bit for every bit of a fraction and normal numbers down to the
least subnormal. -/
structure Widens (format target : Format) : Prop where
  fraction : format.fractionBits ≤ target.fractionBits
  reach : target.minExponent ≤ format.leastExponent

theorem binary_widens : binary32.Widens binary64 := ⟨by decide, by decide⟩

variable {format target : Format}

theorem Widens.maxExponent_le (widens : format.Widens target) :
    format.maxExponent ≤ target.maxExponent := by
  have reach := widens.reach
  rw [leastExponent, minExponent, minExponent] at reach
  omega

theorem exponentOf_le (pattern : Nat) : format.exponentOf pattern ≤ format.specialExponent := by
  have field := Nat.mod_lt (pattern / weight 2 format.fractionBits)
    (bit_pos format.exponentBits)
  rw [exponentOf, specialExponent]
  omega

theorem fractionOf_lt (pattern : Nat) :
    format.fractionOf pattern < weight 2 format.fractionBits :=
  Nat.mod_lt _ (bit_pos _)

theorem number_special (negative : Bool) {fraction : Nat}
    (bounded : fraction < weight 2 format.fractionBits) :
    format.number (format.pattern negative format.specialExponent fraction) =
      if fraction = 0 then .infinite negative else .undefined := by
  rw [number, format.exponentOf_pattern negative le_rfl bounded,
    format.fractionOf_pattern negative le_rfl bounded,
    format.isNegative_fields negative le_rfl bounded]
  simp only [↓reduceIte]

theorem number_fields (negative : Bool) {exponent fraction : Nat}
    (finite : exponent < format.specialExponent)
    (bounded : fraction < weight 2 format.fractionBits) :
    format.number (format.pattern negative exponent fraction) = .finite negative
      (if exponent = 0 then fraction / 2 ^ format.fractionBits * 2 ^ format.minExponent
        else (1 + fraction / 2 ^ format.fractionBits) *
          2 ^ ((exponent : ℤ) - format.maxExponent)) := by
  rw [number, magnitude, format.exponentOf_pattern negative finite.le bounded,
    format.fractionOf_pattern negative finite.le bounded,
    format.isNegative_fields negative finite.le bounded]
  simp only [finite.ne, ↓reduceIte]

theorem aligned_lt (widens : format.Widens target) {fraction : Nat}
    (bounded : fraction < weight 2 format.fractionBits) :
    fraction * weight 2 (target.fractionBits - format.fractionBits) <
      weight 2 target.fractionBits := by
  have split : weight 2 target.fractionBits = weight 2 format.fractionBits *
      weight 2 (target.fractionBits - format.fractionBits) := by
    rw [← weight_add, Nat.add_sub_cancel' widens.fraction]
  rw [split]
  exact Nat.mul_lt_mul_of_pos_right bounded (bit_pos _)

theorem aligned_part (widens : format.Widens target) (fraction : Nat) :
    ((fraction * weight 2 (target.fractionBits - format.fractionBits) : ℕ) : ℚ) /
      2 ^ target.fractionBits = fraction / 2 ^ format.fractionBits := by
  have split : (2 : ℚ) ^ target.fractionBits = 2 ^ format.fractionBits *
      2 ^ (target.fractionBits - format.fractionBits) := by
    rw [← pow_add, Nat.add_sub_cancel' widens.fraction]
  rw [split]
  push_cast [cast_weight]
  field_simp

theorem subnormal_part (widens : format.Widens target) (wide : target.Regular)
    {fraction : Nat} (nonzero : fraction ≠ 0)
    (bounded : fraction < weight 2 format.fractionBits) :
    (1 + ((fraction * weight 2 (target.precision - bitLength fraction) %
        weight 2 target.fractionBits : ℕ) : ℚ) / 2 ^ target.fractionBits) *
      2 ^ (format.leastExponent + bitLength fraction - 1) =
      fraction / 2 ^ format.fractionBits * 2 ^ format.minExponent := by
  have fits := widens.fraction
  have precision := wide.precision_eq
  have short := (bitLength_le fraction _).mpr bounded
  -- The significand has exactly one bit more than the target's fraction.
  generalize value : fraction * weight 2 (target.precision - bitLength fraction) = significand
  have length : bitLength significand = target.fractionBits + 1 := by
    rw [← value, bitLength_scale _ _ nonzero]
    omega
  have low := bitLength_leading significand ((bitLength_pos _).mp (by omega))
  have high := lt_bitLength significand
  rw [length, Nat.add_sub_cancel] at low
  rw [length, weight_succ] at high
  have cut : significand % weight 2 target.fractionBits =
      significand - weight 2 target.fractionBits := by
    rw [Nat.mod_eq_sub_mod low, Nat.mod_eq_of_lt (by omega)]
  have scale : (2 : ℚ) ^ (target.precision - bitLength fraction) *
      2 ^ (format.leastExponent + bitLength fraction - 1) =
      2 ^ target.fractionBits * 2 ^ format.leastExponent := by
    rw [← zpow_natCast, ← zpow_natCast, ← zpow_add₀ (by norm_num), ← zpow_add₀ (by norm_num)]
    congr 1
    omega
  have moved : (1 + ((significand - weight 2 target.fractionBits : ℕ) : ℚ) /
      2 ^ target.fractionBits) =
      fraction * 2 ^ (target.precision - bitLength fraction) / 2 ^ target.fractionBits := by
    rw [Nat.cast_sub low, ← value]
    push_cast [cast_weight]
    field_simp
    ring
  rw [cut, moved, div_mul_eq_mul_div, mul_assoc, scale, pow_minExponent]
  field_simp

/-- The wider pattern has the width of the target and stands for the same number. -/
theorem widen_exact (widens : format.Widens target) (narrow : format.Regular)
    (wide : target.Regular) (pattern : Nat) :
    target.number (format.widen target pattern) = format.number pattern ∧
      format.widen target pattern < weight 2 (target.exponentBits + target.fractionBits + 1) := by
  have within := format.exponentOf_le pattern
  have bounded := format.fractionOf_lt pattern
  have aligned := aligned_lt widens bounded
  have part := aligned_part widens (format.fractionOf pattern)
  have larger := widens.maxExponent_le
  have positive := bit_pos target.fractionBits
  obtain ⟨_, narrowSpecial, narrowLargest⟩ := narrow.special_eq
  obtain ⟨_, wideSpecial, wideLargest⟩ := wide.special_eq
  rw [widen]
  conv => lhs; rhs; rw [number, magnitude]
  generalize format.exponentOf pattern = exponent at *
  generalize format.fractionOf pattern = fraction at *
  generalize format.isNegative pattern = negative
  by_cases special : exponent = format.specialExponent
  · simp only [special, ↓reduceIte]
    refine ⟨?_, target.pattern_bounded negative (Nat.le_refl _) aligned⟩
    rw [number_special negative aligned]
    simp [weight, Nat.pow_eq_zero]
  simp only [special, ↓reduceIte]
  by_cases normal : 0 < exponent
  · simp only [normal, normal.ne', ↓reduceIte]
    refine ⟨?_, target.pattern_bounded negative (by omega) aligned⟩
    rw [number_fields negative (by omega) aligned, part, if_neg (by omega), Nat.cast_add,
      Nat.cast_sub larger]
    congr 3
    ring
  have first : exponent = 0 := by omega
  simp only [first, Nat.lt_irrefl, ↓reduceIte]
  by_cases zero : fraction = 0
  · simp only [zero, ↓reduceIte]
    refine ⟨?_, target.pattern_bounded negative (Nat.zero_le _) positive⟩
    rw [number_fields negative (by omega) positive]
    simp
  · -- A subnormal has a normal exponent in the target, because the target reaches down.
    simp only [zero, ↓reduceIte]
    have some_bit := (bitLength_pos fraction).mpr zero
    have short := (bitLength_le fraction _).mpr bounded
    have reach := widens.reach
    have moved := subnormal_part widens wide zero bounded
    have place : format.leastExponent = 1 - format.maxExponent - format.fractionBits := by
      rw [leastExponent, minExponent]
    rw [minExponent] at reach
    refine ⟨?_, target.pattern_bounded negative (by omega) (Nat.mod_lt _ positive)⟩
    rw [number_fields negative (by omega) (Nat.mod_lt _ positive), if_neg (by omega), ← moved]
    congr 3
    omega

end TypedLiteral.Binary.Format
