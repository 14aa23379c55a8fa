import Mathlib.Algebra.Order.Field.Power
import Mathlib.Tactic.FieldSimp
import Mathlib.Tactic.IntervalCases
import TypedLiteral.Proofs.Binary.Ladder

/-!
What the patterns of a binary interchange format stand for, and which pattern is
the correctly rounded one. Rounding is stated over all numbers of the format at
once: no other number of the sign is nearer, at a tie the last bit is clear, and
from halfway between the largest finite number and the next power of two on the
result is infinity. Such a pattern is unique.
-/
namespace TypedLiteral.Binary

inductive Number where
  | finite (negative : Bool) (magnitude : ℚ)
  | infinite (negative : Bool)
  | undefined

namespace Format

variable (format : Format)

/-- The fraction of a finite pattern stands behind a point. In front of it is a one,
and the exponent field scales both, unless the field is zero. -/
def magnitude (pattern : Nat) : ℚ :=
  if format.exponentOf pattern = 0 then
    format.fractionOf pattern / 2 ^ format.fractionBits * 2 ^ format.minExponent
  else
    (1 + format.fractionOf pattern / 2 ^ format.fractionBits) *
      2 ^ ((format.exponentOf pattern : ℤ) - format.maxExponent)

def number (pattern : Nat) : Number :=
  if format.exponentOf pattern = format.specialExponent then
    if format.fractionOf pattern = 0 then .infinite (format.isNegative pattern) else .undefined
  else .finite (format.isNegative pattern) (format.magnitude pattern)

/-- Halfway between the largest finite number and the next power of two. -/
def overflowBound : ℚ :=
  2 ^ ((format.maxExponent : ℤ) + 1) - 2 ^ ((format.maxExponent : ℤ) - format.precision)

/-- The pattern is the one nearest to a magnitude, ties to even, with the sign. -/
structure NearestEven (negative : Bool) (value : ℚ) (pattern : Nat) : Prop where
  bounded : pattern < weight 2 (format.exponentBits + format.fractionBits + 1)
  overflow : format.overflowBound ≤ value → format.number pattern = .infinite negative
  finite : value < format.overflowBound →
    format.number pattern = .finite negative (format.magnitude pattern)
  near : value < format.overflowBound → ∀ other magnitude,
    format.number other = .finite negative magnitude →
      |format.magnitude pattern - value| ≤ |magnitude - value|
  even : value < format.overflowBound → ∀ other magnitude,
    format.number other = .finite negative magnitude → magnitude ≠ format.magnitude pattern →
      |magnitude - value| = |format.magnitude pattern - value| → pattern % 2 = 0

def stepOf (pattern : Nat) : Nat := pattern % weight 2 (format.exponentBits + format.fractionBits)

/-- The step at which infinity stands. -/
def topStep : Nat := format.specialExponent * weight 2 format.fractionBits

theorem exponentOf_step (pattern : Nat) :
    format.exponentOf pattern = format.stepOf pattern / weight 2 format.fractionBits := by
  rw [exponentOf, stepOf, Nat.add_comm, weight_add, Nat.mod_mul_right_div_self]

theorem fractionOf_step (pattern : Nat) :
    format.fractionOf pattern = format.stepOf pattern % weight 2 format.fractionBits := by
  rw [fractionOf, stepOf, Nat.mod_mod_of_dvd]
  exact weight_dvd 2 (Nat.le_add_left _ _)

theorem pow_minExponent : (2 : ℚ) ^ format.minExponent =
    2 ^ format.fractionBits * 2 ^ format.leastExponent := by
  rw [← zpow_natCast, ← zpow_add₀ (by norm_num), leastExponent]
  congr 1
  ring

theorem magnitude_rung (pattern : Nat) :
    format.magnitude pattern = format.rung (format.stepOf pattern) * 2 ^ format.leastExponent := by
  have whole := Nat.div_add_mod' (format.stepOf pattern) (weight 2 format.fractionBits)
  have point : (2 : ℚ) ^ format.fractionBits ≠ 0 := by positivity
  have least := format.pow_minExponent
  rw [magnitude, exponentOf_step, fractionOf_step, rung, row]
  cases field : format.stepOf pattern / weight 2 format.fractionBits with
  | zero =>
      rw [field] at whole
      have same : format.stepOf pattern % weight 2 format.fractionBits = format.stepOf pattern := by
        omega
      simp only [↓reduceIte, Nat.zero_sub, Nat.zero_mul, Nat.sub_zero, same, least]
      push_cast [cast_weight]
      field_simp
  | succ count =>
      rw [field, Nat.succ_mul] at whole
      have significand : format.stepOf pattern - count * weight 2 format.fractionBits =
          weight 2 format.fractionBits + format.stepOf pattern % weight 2 format.fractionBits := by
        omega
      have scale : ((count + 1 : ℕ) : ℤ) - format.maxExponent = count + format.minExponent := by
        rw [minExponent]
        push_cast
        ring
      rw [Nat.add_sub_cancel, significand, scale, zpow_add₀ (by norm_num), zpow_natCast, least]
      simp only [Nat.succ_ne_zero, ↓reduceIte]
      push_cast [cast_weight]
      field_simp

theorem fields_lt {exponent fraction : Nat} (within : exponent ≤ format.specialExponent)
    (bounded : fraction < weight 2 format.fractionBits) :
    exponent * weight 2 format.fractionBits + fraction <
      weight 2 (format.exponentBits + format.fractionBits) := by
  have positive := bit_pos format.exponentBits
  have rows := Nat.mul_le_mul_right (weight 2 format.fractionBits)
    (show exponent + 1 ≤ weight 2 format.exponentBits by rw [specialExponent] at within; omega)
  rw [Nat.succ_mul] at rows
  rw [weight_add]
  omega

theorem topStep_lt : format.topStep < weight 2 (format.exponentBits + format.fractionBits) :=
  format.fields_lt (Nat.le_refl _) (bit_pos _)

theorem exponent_special (pattern : Nat) :
    format.exponentOf pattern = format.specialExponent ↔
      format.topStep ≤ format.stepOf pattern := by
  have positive := bit_pos format.fractionBits
  have bounded : format.stepOf pattern <
      weight 2 format.exponentBits * weight 2 format.fractionBits := by
    rw [← weight_add]
    exact Nat.mod_lt _ (bit_pos _)
  have field := (Nat.div_lt_iff_lt_mul positive).mpr bounded
  rw [exponentOf_step, topStep, ← Nat.le_div_iff_mul_le positive]
  unfold specialExponent
  omega

theorem number_finite (pattern : Nat) (negative : Bool) (magnitude : ℚ) :
    format.number pattern = .finite negative magnitude ↔
      format.isNegative pattern = negative ∧ format.stepOf pattern < format.topStep ∧
        magnitude = format.rung (format.stepOf pattern) * 2 ^ format.leastExponent := by
  rw [number, magnitude_rung, ← Nat.not_le, ← exponent_special]
  by_cases special : format.exponentOf pattern = format.specialExponent
  · by_cases clear : format.fractionOf pattern = 0 <;> simp [special, clear]
  · simp [special, eq_comm]

theorem number_infinite (pattern : Nat) (negative : Bool) :
    format.number pattern = .infinite negative ↔
      format.isNegative pattern = negative ∧ format.stepOf pattern = format.topStep := by
  have positive := bit_pos format.fractionBits
  have whole := Nat.div_add_mod' (format.stepOf pattern) (weight 2 format.fractionBits)
  rw [number]
  by_cases special : format.exponentOf pattern = format.specialExponent
  · have field := special
    rw [exponentOf_step] at field
    rw [field] at whole
    simp only [special, ↓reduceIte, fractionOf_step, topStep]
    by_cases clear : format.stepOf pattern % weight 2 format.fractionBits = 0
    · simp only [clear, ↓reduceIte, Number.infinite.injEq]
      exact ⟨fun same => ⟨same, by omega⟩, fun both => both.1⟩
    · simp only [clear, ↓reduceIte, reduceCtorEq, false_iff, not_and]
      omega
  · have below := mt (format.exponent_special pattern).mpr special
    simp only [special, ↓reduceIte, reduceCtorEq, false_iff, not_and]
    omega

section Patterns

variable (negative : Bool) (step : Nat)

theorem pattern_split (exponent fraction : Nat) :
    format.pattern negative exponent fraction =
      format.pattern negative 0 (exponent * weight 2 format.fractionBits + fraction) := by
  simp only [pattern, Nat.zero_mul, Nat.add_zero, Nat.add_assoc]

variable (inside : step < weight 2 (format.exponentBits + format.fractionBits))
include inside

theorem pattern_lt : format.pattern negative 0 step <
    weight 2 (format.exponentBits + format.fractionBits + 1) := by
  rw [weight_succ, pattern]
  cases negative <;> simp <;> omega

theorem stepOf_pattern : format.stepOf (format.pattern negative 0 step) = step := by
  rw [stepOf, pattern]
  cases negative <;> simp [Nat.mod_eq_of_lt inside]

theorem isNegative_pattern : format.isNegative (format.pattern negative 0 step) = negative := by
  have positive := bit_pos (format.exponentBits + format.fractionBits)
  rw [isNegative, pattern]
  cases negative <;> simp [Nat.div_eq_of_lt inside, Nat.add_div_left _ positive]

end Patterns

theorem min_topStep_lt (step : Nat) : min step format.topStep <
    weight 2 (format.exponentBits + format.fractionBits) :=
  Nat.lt_of_le_of_lt (Nat.min_le_right _ _) format.topStep_lt

section Fields

variable (negative : Bool) {exponent fraction : Nat}
variable (within : exponent ≤ format.specialExponent)
variable (bounded : fraction < weight 2 format.fractionBits)
include within bounded

theorem pattern_bounded : format.pattern negative exponent fraction <
    weight 2 (format.exponentBits + format.fractionBits + 1) := by
  rw [pattern_split]
  exact format.pattern_lt negative _ (format.fields_lt within bounded)

theorem exponentOf_pattern :
    format.exponentOf (format.pattern negative exponent fraction) = exponent := by
  rw [exponentOf_step, pattern_split, stepOf_pattern _ _ _ (format.fields_lt within bounded),
    Nat.mul_comm, Nat.mul_add_div (bit_pos _), Nat.div_eq_of_lt bounded,
    Nat.add_zero]

theorem fractionOf_pattern :
    format.fractionOf (format.pattern negative exponent fraction) = fraction := by
  rw [fractionOf_step, pattern_split, stepOf_pattern _ _ _ (format.fields_lt within bounded),
    Nat.mul_add_mod_of_lt bounded]

theorem isNegative_fields :
    format.isNegative (format.pattern negative exponent fraction) = negative := by
  rw [pattern_split]
  exact format.isNegative_pattern negative _ (format.fields_lt within bounded)

end Fields

theorem pattern_stepOf (pattern : Nat)
    (bounded : pattern < weight 2 (format.exponentBits + format.fractionBits + 1)) :
    format.pattern (format.isNegative pattern) 0 (format.stepOf pattern) = pattern := by
  rw [weight_succ] at bounded
  have whole := Nat.div_add_mod' pattern (weight 2 (format.exponentBits + format.fractionBits))
  unfold Format.pattern isNegative stepOf
  have field : pattern / weight 2 (format.exponentBits + format.fractionBits) < 2 :=
    Nat.div_lt_of_lt_mul bounded
  generalize weight 2 (format.exponentBits + format.fractionBits) = sign at *
  interval_cases high : pattern / sign
  · simpa using whole
  · simpa using whole

theorem pattern_ext {first second : Nat}
    (left : first < weight 2 (format.exponentBits + format.fractionBits + 1))
    (right : second < weight 2 (format.exponentBits + format.fractionBits + 1))
    (sign : format.isNegative first = format.isNegative second)
    (step : format.stepOf first = format.stepOf second) : first = second := by
  rw [← format.pattern_stepOf first left, ← format.pattern_stepOf second right, sign, step]

/-- Patterns of the same number are the same, unless they stand for none. -/
theorem number_injective {first second : Nat}
    (left : first < weight 2 (format.exponentBits + format.fractionBits + 1))
    (right : second < weight 2 (format.exponentBits + format.fractionBits + 1))
    (same : format.number first = format.number second)
    (defined : format.number second ≠ .undefined) : first = second := by
  cases value : format.number second with
  | finite negative magnitude =>
      obtain ⟨leftSign, _, leftMagnitude⟩ := (format.number_finite _ _ _).mp (same.trans value)
      obtain ⟨rightSign, _, rightMagnitude⟩ := (format.number_finite _ _ _).mp value
      have scale : (2 : ℚ) ^ format.leastExponent ≠ 0 := by positivity
      have rungs := mul_right_cancel₀ scale (leftMagnitude.symm.trans rightMagnitude)
      refine format.pattern_ext left right (leftSign.trans rightSign.symm) ?_
      exact format.rung_strictMono.injective (by exact_mod_cast rungs)
  | infinite negative =>
      obtain ⟨leftSign, leftTop⟩ := (format.number_infinite _ _).mp (same.trans value)
      obtain ⟨rightSign, rightTop⟩ := (format.number_infinite _ _).mp value
      exact format.pattern_ext left right (leftSign.trans rightSign.symm)
        (leftTop.trans rightTop.symm)
  | undefined => exact absurd value defined

end Format

end TypedLiteral.Binary
